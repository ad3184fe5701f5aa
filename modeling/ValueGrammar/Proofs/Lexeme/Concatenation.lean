import ValueGrammar.Lexeme.Reader
import ValueGrammar.Proofs.Text.Enclosing

/-!
Reading a grammar in front of more text. A grammar that can be read is read in the same way when a
blank or a comma and further text follow it, so the lexemes of two grammars in a row are those of the
first one and then those of the second one.
-/
namespace ValueGrammar.Lexeme

open Unicode Text

/-! ### Readers in front of more text -/

theorem takeWhile_append_left {p : Char → Bool} {cs : List Char} (stopped : cs.dropWhile p ≠ [])
    (ds : List Char) :
    (cs ++ ds).takeWhile p = cs.takeWhile p ∧ (cs ++ ds).dropWhile p = cs.dropWhile p ++ ds := by
  induction cs with
  | nil => exact absurd rfl stopped
  | cons c cs ih =>
    by_cases passed : p c = true
    · simp only [List.dropWhile_cons_of_pos passed] at stopped
      simp only [List.cons_append, List.takeWhile_cons_of_pos passed,
        List.dropWhile_cons_of_pos passed, ih stopped, and_self]
    · simp [passed]

theorem readCount?_append {cs : List Char} {count : Nat} {rest : List Char}
    (h : readCount? cs = some (count, rest)) (more : rest ≠ []) (ds : List Char) :
    readCount? (cs ++ ds) = some (count, rest ++ ds) := by
  unfold readCount? at h ⊢
  split at h
  · cases h
  · next digits =>
    simp only [Option.ite_none_right_eq_some, Option.some.injEq, Prod.mk.injEq] at h
    obtain ⟨small, value, left⟩ := h
    have same := takeWhile_append_left (left ▸ more : cs.dropWhile Char.isDigit ≠ []) ds
    rw [same.1]
    split
    · next none => exact absurd none digits
    · rw [if_pos small, value, same.2, left]

/-- Without a digit in front there is no count. -/
theorem readCount?_eq_none {c : Char} (other : c.isDigit = false) (cs : List Char) :
    readCount? (c :: cs) = none := by
  simp [readCount?, other]

theorem readGreatest_append {min : Nat} {cs : List Char} {max? : Option Nat} {rest : List Char}
    (h : readGreatest min cs = (max?, '\x7d' :: rest)) (ds : List Char) :
    readGreatest min (cs ++ ds) = (max?, '\x7d' :: (rest ++ ds)) := by
  unfold readGreatest at h
  split at h
  · next after =>
    split at h
    · next found =>
      cases h
      simp only [List.cons_append, readGreatest]
      rw [readCount?_append found (by simp)]
      rfl
    · cases h
      simp only [List.cons_append, readGreatest]
      rw [readCount?_eq_none (by decide)]
  · cases h
    rfl

theorem readBraces?_append {cs : List Char} {counts : Nat × Option Nat} {rest : List Char}
    (h : readBraces? cs = some (counts, rest)) (ds : List Char) :
    readBraces? (cs ++ ds) = some (counts, rest ++ ds) := by
  unfold readBraces? at h
  split at h
  · next after =>
    split at h
    · next min behind found =>
      simp only at h
      split at h
      · next closed =>
        cases h
        have nonempty : behind ≠ [] := by
          intro given
          subst given
          simp [readGreatest] at closed
        have greatest : readGreatest min behind = ((readGreatest min behind).1, '\x7d' :: rest) :=
          Prod.ext rfl closed
        simp only [List.cons_append, readBraces?]
        rw [readCount?_append found nonempty]
        simp only [readGreatest_append greatest]
      · cases h
    · cases h
  · cases h

theorem readBraces?_eq_none {cs : List Char} (other : cs.head? ≠ some '\x7b') :
    readBraces? cs = none := by
  unfold readBraces?
  split
  · simp at other
  · rfl

theorem readAngled?_append {cs inside rest : List Char}
    (h : readAngled? cs = some (inside, rest)) (ds : List Char) :
    readAngled? (cs ++ ds) = some (inside, rest ++ ds) := by
  unfold readAngled? at h
  split at h
  · next after =>
    split at h
    · next c more left taken dropped =>
      cases h
      have stopped : after.dropWhile (· != '>') ≠ [] := by rw [dropped]; simp
      have same := takeWhile_append_left stopped ds
      simp only [List.cons_append, readAngled?, same.1, same.2, taken, dropped]
    · cases h
  · cases h

theorem readAngled?_eq_none {c : Char} (other : c ≠ '<') (cs : List Char) :
    readAngled? (c :: cs) = none := by
  unfold readAngled?
  split
  · next eq => exact absurd (List.cons.inj eq).1 other
  · rfl

/-- The text inside angle brackets is read up to the first closing bracket. -/
theorem readAngled?_closed {inside : List Char} (nonempty : inside ≠ [])
    (open' : ∀ c ∈ inside, c ≠ '>') (rest : List Char) :
    readAngled? ('<' :: (inside ++ '>' :: rest)) = some (inside, rest) := by
  have all : ∀ c ∈ inside, (c != '>') = true := by simpa using open'
  have stop : StopsBefore (· != '>') ('>' :: rest) := .cons (by decide) _
  simp only [readAngled?, takeWhile_append_stop all stop, dropWhile_append_stop all stop]
  cases inside with
  | nil => exact absurd rfl nonempty
  | cons c cs => rfl

/-! ### The next lexeme, by its first character -/

def delimiterChars : List Char := ['|', '&', '[', ']', ',', '/']

def multiplierChars : List Char := ['?', '*', '+', '#', '\x7b']

theorem next?_of_not_delimiter {c : Char} (other : c ∉ delimiterChars) (cs : List Char) :
    next? (c :: cs) =
      match readMultiplier? (c :: cs) with
      | some (m, rest) => some (multiplier m, rest)
      | none => (readToken? (c :: cs)).map fun read => (token (String.ofList read.1), read.2) := by
  simp only [delimiterChars, List.mem_cons, List.not_mem_nil, or_false, not_or] at other
  conv => lhs; unfold next?
  split
  case h_8 => rfl
  all_goals simp_all

theorem readMultiplier?_eq_none {c : Char} (other : c ∉ multiplierChars) (cs : List Char) :
    readMultiplier? (c :: cs) = none := by
  simp only [multiplierChars, List.mem_cons, List.not_mem_nil, or_false, not_or] at other
  unfold readMultiplier?
  split
  · simp_all
  · simp_all
  · simp_all
  · simp_all
  · rw [readBraces?_eq_none (by simpa using other.2.2.2.2)]
    rfl

/-- Delimiters and multipliers start with other characters than tokens. -/
theorem not_mem_of_starts_token {c : Char} (start : c = '<' ∨ isIdentifierChar c = true) :
    c ∉ delimiterChars ++ multiplierChars := by
  intro member
  have others : ((delimiterChars ++ multiplierChars).all fun d =>
      d != '<' && !isIdentifierChar d) = true := by decide +kernel
  have other := List.all_eq_true.mp others c member
  simp only [Bool.and_eq_true, bne_iff_ne, Bool.not_eq_true'] at other
  rcases start with angle | letter
  · exact other.1 angle
  · rw [letter] at other
    cases other.2

/-- A text that starts like no lexeme cannot be read. -/
theorem next?_eq_none {c : Char} {cs : List Char} (noDelimiter : c ∉ delimiterChars)
    (noMultiplier : readMultiplier? (c :: cs) = none) (noAngle : c ≠ '<')
    (noLetter : isIdentifierChar c = false) : next? (c :: cs) = none := by
  have noWord : identifier? (c :: cs) = none := by simp [identifier?, noLetter]
  have noToken : readToken? (c :: cs) = none := by
    simp [readToken?, readAngled?_eq_none noAngle, call?, noWord]
  rw [next?_of_not_delimiter noDelimiter, noMultiplier, noToken]
  rfl

/-- A single ampersand is no lexeme. -/
theorem next?_ampersand {cs : List Char} {x : Lexeme} {rest : List Char}
    (h : next? ('&' :: cs) = some (x, rest)) : cs = '&' :: rest ∧ x = doubleAmpersand := by
  unfold next? at h
  split at h
  · next eq => cases eq
  · next eq =>
    cases eq
    cases h
    exact ⟨rfl, rfl⟩
  · next eq => cases eq
  · next eq => cases eq
  · next eq => cases eq
  · next eq => cases eq
  · next eq => cases eq
  · rw [readMultiplier?_eq_none (by decide)] at h
    have noWord : identifier? ('&' :: cs) = none := by
      simp [identifier?, show isIdentifierChar '&' = false by decide +kernel]
    have noToken : readToken? ('&' :: cs) = none := by
      simp [readToken?, readAngled?_eq_none (show '&' ≠ '<' by decide), call?, noWord]
    rw [noToken] at h
    cases h

theorem next?_bar {cs : List Char} (single : cs.head? ≠ some '|') :
    next? ('|' :: cs) = some (bar, cs) := by
  unfold next?
  split
  · next eq =>
    cases eq
    simp at single
  · next eq => cases eq
  · next eq =>
    cases eq
    rfl
  · next eq => cases eq
  · next eq => cases eq
  · next eq => cases eq
  · next eq => cases eq
  · next _ _ notBar _ _ _ _ => exact (notBar cs rfl).elim

/-! ### The lexemes of a text -/

theorem dropBlanks_dropBlanks (cs : List Char) : dropBlanks (dropBlanks cs) = dropBlanks cs :=
  dropBlanks_eq_self (dropWhile_stops isBlank cs)

theorem readAll_eq (cs : List Char) :
    readAll cs =
      match dropBlanks cs with
      | [] => .ok []
      | start =>
        match next? start with
        | none => .error start
        | some (x, rest) => (readAll rest).map (x :: ·) := by
  rw [readAll]
  split
  · next start => rw [start]
  · next start =>
    rw [start]
    simp only
    split
    · next none => rw [none]
    · next found => rw [found]

/-- Blanks in front of a text change nothing. -/
theorem readAll_dropBlanks (cs : List Char) : readAll (dropBlanks cs) = readAll cs := by
  rw [readAll_eq, readAll_eq cs, dropBlanks_dropBlanks]

theorem readAll_of_blank {cs : List Char} (blank : dropBlanks cs = []) : readAll cs = .ok [] := by
  rw [readAll_eq, blank]

theorem readAll_of_next? {cs : List Char} {x : Lexeme} {rest : List Char}
    (h : next? (dropBlanks cs) = some (x, rest)) : readAll cs = (readAll rest).map (x :: ·) := by
  rw [readAll_eq]
  cases start : dropBlanks cs with
  | nil =>
    rw [start] at h
    cases h
  | cons c more =>
    rw [start] at h
    simp only [h]

/-- A text that can be read is blank, or a lexeme stands behind its first blanks and what follows the
lexeme can be read as well. -/
theorem readAll_eq_ok {cs : List Char} {xs : List Lexeme} (h : readAll cs = .ok xs) :
    (dropBlanks cs = [] ∧ xs = []) ∨
      ∃ x rest ys, next? (dropBlanks cs) = some (x, rest) ∧ readAll rest = .ok ys ∧ xs = x :: ys := by
  rw [readAll_eq] at h
  split at h
  · next start =>
    cases h
    exact Or.inl ⟨start, rfl⟩
  · split at h
    · cases h
    · next x rest found =>
      cases later : readAll rest with
      | error left =>
        rw [later] at h
        cases h
      | ok ys =>
        rw [later] at h
        cases h
        exact Or.inr ⟨x, rest, ys, found, later, rfl⟩

theorem ofGrammar_eq_ok {grammar : String} {xs : List Lexeme} :
    ofGrammar grammar = .ok xs ↔ readAll grammar.toList = .ok xs := by
  unfold ofGrammar
  cases readAll grammar.toList with
  | error rest =>
    constructor
    · intro h
      cases h
    · intro h
      cases h
  | ok ys =>
    constructor
    · intro h
      cases h
      rfl
    · intro h
      cases h
      rfl

/-- What no lexeme starts with cannot follow a lexeme of a text that can be read. -/
theorem next?_of_readable {c : Char} {cs : List Char} {xs : List Lexeme}
    (solid : isBlank c = false) (h : readAll (c :: cs) = .ok xs) : next? (c :: cs) ≠ none := by
  intro none
  have stays : dropBlanks (c :: cs) = c :: cs := dropBlanks_eq_self (.cons solid cs)
  rcases readAll_eq_ok h with ⟨blank, -⟩ | ⟨x, rest, ys, found, -, -⟩
  · rw [stays] at blank
    cases blank
  · rw [stays, none] at found
    cases found

/-! ### More text behind a grammar -/

/-- Text that a blank or a comma separates from what stands in front of it. -/
def StartsApart (ds : List Char) : Prop :=
  ∀ c ∈ ds.head?, isBlank c = true ∨ c = ','

theorem StartsApart.not_letter {ds : List Char} (apart : StartsApart ds) :
    StopsBefore isIdentifierChar ds := by
  intro c first
  by_contra letter
  have solid := isBlank_of_isIdentifierChar (by simpa using letter : isIdentifierChar c = true)
  rcases apart c first with blank | rfl
  · rw [blank] at solid
    cases solid
  · exact absurd letter (by decide +kernel)

/-- A character that is neither blank nor a comma and does not start a text starts no text with
separate text behind it. -/
theorem StartsApart.head?_ne {ds : List Char} (apart : StartsApart ds) {c : Char}
    (solid : isBlank c = false) (noComma : c ≠ ',') {rest : List Char}
    (different : rest.head? ≠ some c) : (rest ++ ds).head? ≠ some c := by
  cases rest with
  | cons d rest => simpa using different
  | nil =>
    intro first
    rcases apart c (by simpa using first) with blank | comma
    · rw [solid] at blank
      cases blank
    · exact noComma comma

theorem readMultiplier?_append {cs : List Char} {m : Multiplier} {rest : List Char}
    (h : readMultiplier? cs = some (m, rest)) {xs : List Lexeme} (readable : readAll rest = .ok xs)
    {ds : List Char} (apart : StartsApart ds) :
    readMultiplier? (cs ++ ds) = some (m, rest ++ ds) := by
  unfold readMultiplier? at h
  split at h
  · cases h
    rfl
  · cases h
    rfl
  · cases h
    rfl
  · next after =>
    split at h
    · next found =>
      cases h
      simp only [List.cons_append, readMultiplier?, readBraces?_append found ds]
    · next unread =>
      cases h
      -- Braces that cannot be read behind the sign could not be read as a lexeme either.
      have noBrace : rest.head? ≠ some '\x7b' := by
        intro first
        cases rest with
        | nil => cases first
        | cons c rest =>
          cases first
          apply next?_of_readable (by decide) readable
          apply next?_eq_none (by decide) _ (by decide) (by decide +kernel)
          change (readBraces? ('\x7b' :: rest)).map _ = _
          rw [unread]
          rfl
      have still := readBraces?_eq_none (apart.head?_ne (by decide) (by decide) noBrace)
      simp only [List.cons_append, readMultiplier?, still]
  · next notOpt notStar notPlus notHash =>
    obtain ⟨read, found, eq⟩ := Option.map_eq_some_iff.mp h
    cases eq
    have more := readBraces?_append found ds
    cases cs with
    | nil => cases found
    | cons c cs =>
      unfold readMultiplier?
      split
      · next eq => exact (notOpt cs (by rw [(List.cons.inj eq).1])).elim
      · next eq => exact (notStar cs (by rw [(List.cons.inj eq).1])).elim
      · next eq => exact (notPlus cs (by rw [(List.cons.inj eq).1])).elim
      · next eq => exact (notHash cs (by rw [(List.cons.inj eq).1])).elim
      · rw [more]
        rfl

/-- A token starts with an opening angle bracket or with an identifier character. -/
theorem readToken?_head {cs text rest : List Char} (h : readToken? cs = some (text, rest)) :
    ∃ c more, cs = c :: more ∧ (c = '<' ∨ isIdentifierChar c = true) := by
  unfold readToken? at h
  split at h
  · next found =>
    rw [readAngled?_eq_some found]
    exact ⟨_, _, rfl, Or.inl rfl⟩
  · have word : ∃ name after, identifier? cs = some (name, after) := by
      split at h
      · next found =>
        obtain ⟨after, named, -⟩ := call?_eq_some_iff.mp found
        exact ⟨_, _, named⟩
      · exact ⟨_, _, h⟩
    obtain ⟨name, after, named⟩ := word
    obtain ⟨rfl, nonempty⟩ := identifier?_eq_some named
    have letters := letters_of_identifier? named
    cases name with
    | nil => exact absurd rfl nonempty
    | cons c name => exact ⟨c, name ++ after, rfl, Or.inr (letters c List.mem_cons_self)⟩

theorem readToken?_append {cs text rest : List Char} (h : readToken? cs = some (text, rest))
    {xs : List Lexeme} (readable : readAll rest = .ok xs) {ds : List Char} (apart : StartsApart ds) :
    readToken? (cs ++ ds) = some (text, rest ++ ds) := by
  unfold readToken? at h ⊢
  split at h
  · next found =>
    cases h
    rw [readAngled?_append found ds]
  · next untyped =>
    have word : ∃ name after, identifier? cs = some (name, after) := by
      split at h
      · next found =>
        obtain ⟨after, named, -⟩ := call?_eq_some_iff.mp found
        exact ⟨_, _, named⟩
      · exact ⟨_, _, h⟩
    obtain ⟨name, after, named⟩ := word
    obtain ⟨whole, nonempty⟩ := identifier?_eq_some named
    have letters := letters_of_identifier? named
    have stops := identifier?_stops named
    have stillUntyped : readAngled? (cs ++ ds) = none := by
      cases name with
      | nil => exact absurd rfl nonempty
      | cons c name =>
        rw [whole]
        apply readAngled?_eq_none
        intro given
        subst given
        exact absurd (letters '<' List.mem_cons_self) (by decide +kernel)
    have stillStops : StopsBefore isIdentifierChar (after ++ ds) := by
      cases after with
      | nil => exact apart.not_letter
      | cons c after => exact .cons (stops c rfl) _
    have stillNamed : identifier? (cs ++ ds) = some (name, after ++ ds) := by
      rw [whole, List.append_assoc]
      exact identifier?_append nonempty letters stillStops
    rw [stillUntyped]
    simp only
    split at h
    · next call _ found =>
      cases h
      obtain ⟨inside, named', closed⟩ := call?_eq_some_iff.mp found
      rw [named] at named'
      cases named'
      have stillCall : call? (cs ++ ds) = some (call, rest ++ ds) :=
        call?_eq_some_iff.mpr ⟨inside ++ ds, stillNamed, enclosed?_append closed ds⟩
      rw [stillCall]
    · rw [named] at h
      cases h
      -- A parenthesis behind a plain identifier could not be read as a lexeme.
      have noCall : rest.head? ≠ some '(' := by
        intro first
        cases rest with
        | nil => cases first
        | cons c rest =>
          cases first
          apply next?_of_readable (by decide) readable
          exact next?_eq_none (by decide) (readMultiplier?_eq_none (by decide) _) (by decide)
            (by decide +kernel)
      rw [call?_eq_none stillNamed (apart.head?_ne (by decide) (by decide) noCall), stillNamed]

/-- A lexeme is read in the same way when separate text follows a text that can be read. -/
theorem next?_append {cs : List Char} {x : Lexeme} {rest : List Char}
    (h : next? cs = some (x, rest)) {xs : List Lexeme} (readable : readAll rest = .ok xs)
    {ds : List Char} (apart : StartsApart ds) : next? (cs ++ ds) = some (x, rest ++ ds) := by
  have original := h
  unfold next? at h
  split at h
  · cases h
    rfl
  · cases h
    rfl
  · next notDouble =>
    cases h
    have single : rest.head? ≠ some '|' := by
      intro first
      cases rest with
      | nil => cases first
      | cons c rest =>
        cases first
        exact notDouble rest rfl
    exact next?_bar (apart.head?_ne (by decide) (by decide) single)
  · cases h
    rfl
  · cases h
    rfl
  · cases h
    rfl
  · cases h
    rfl
  · next notBars _ notBar notOpening notClosing notComma notSlash =>
    have otherwise {c : Char} {more : List Char} (eq : cs = c :: more) : c ∉ delimiterChars := by
      subst eq
      intro member
      simp only [delimiterChars, List.mem_cons, List.not_mem_nil, or_false] at member
      rcases member with rfl | rfl | rfl | rfl | rfl | rfl
      · exact notBar more rfl
      · next notAmpersands =>
        exact notAmpersands rest (by rw [(next?_ampersand original).1])
      · exact notOpening more rfl
      · exact notClosing more rfl
      · exact notComma more rfl
      · exact notSlash more rfl
    split at h
    · next m left found =>
      cases h
      have still := readMultiplier?_append found readable apart
      cases cs with
      | nil => cases found
      | cons c more =>
        rw [List.cons_append] at still ⊢
        rw [next?_of_not_delimiter (otherwise rfl), still]
    · obtain ⟨read, found, eq⟩ := Option.map_eq_some_iff.mp h
      cases eq
      have still := readToken?_append found readable apart
      obtain ⟨c, more, rfl, start⟩ := readToken?_head found
      have noMultiplier : c ∉ multiplierChars := fun member =>
        not_mem_of_starts_token start (List.mem_append_right _ member)
      rw [List.cons_append] at still ⊢
      rw [next?_of_not_delimiter (otherwise rfl), readMultiplier?_eq_none noMultiplier, still]
      rfl

/-- The lexemes of a grammar with separate text behind it: its own, and then those of the text. -/
theorem readAll_append {cs : List Char} {xs : List Lexeme} (h : readAll cs = .ok xs)
    {ds : List Char} (apart : StartsApart ds) :
    readAll (cs ++ ds) = (readAll ds).map (xs ++ ·) := by
  induction length : cs.length using Nat.strong_induction_on generalizing cs xs with
  | _ n ih =>
    subst length
    rcases readAll_eq_ok h with ⟨allBlank, rfl⟩ | ⟨x, rest, ys, found, later, rfl⟩
    · have same : dropBlanks (cs ++ ds) = dropBlanks ds := by
        have every : ∀ c ∈ cs, isBlank c = true := by
          simpa [dropBlanks, List.dropWhile_eq_nil_iff] using allBlank
        rw [dropBlanks, List.dropWhile_append_of_pos every]
        rfl
      rw [← readAll_dropBlanks, same, readAll_dropBlanks]
      cases readAll ds <;> rfl
    · have front : dropBlanks (cs ++ ds) = dropBlanks cs ++ ds := by
        have stopped : cs.dropWhile isBlank ≠ [] := by
          intro none
          rw [dropBlanks, none] at found
          cases found
        exact (takeWhile_append_left stopped ds).2
      have shorter := next?_shorter found
      have atMost := length_dropBlanks_le cs
      have next := next?_append found later apart
      rw [← front] at next
      rw [readAll_of_next? next, ih rest.length (by omega) later rfl]
      cases readAll ds <;> rfl

end ValueGrammar.Lexeme
