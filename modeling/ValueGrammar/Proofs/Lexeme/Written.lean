import ValueGrammar.Proofs.Lexeme.Concatenation
import ValueGrammar.Proofs.Reference.RoundTrip
import ValueGrammar.Separator

/-!
Tokens, and rows of those that are written as references are printed. A token is read whole if what
follows cannot go on with it. A row of tokens with separators in between is read as the tokens with
the lexemes of the separators, so its text determines both.
-/
namespace ValueGrammar

open Unicode Text

/-- A text written as the reference that it is read as. -/
def Written (text : String) : Prop :=
  ∃ reference, Reference.parse text = .ok reference ∧ reference.text = text

theorem Written.proper {text : String} (written : Written text) :
    ∃ reference : Reference, reference.Proper ∧ reference.text = text := by
  obtain ⟨reference, parsed, same⟩ := written
  exact ⟨reference, Reference.proper_of_parse parsed, same⟩

/-! ### Angle brackets -/

theorem Decimal.mem_chars {d : Decimal} {c : Char} (member : c ∈ d.chars) :
    c.isDigit = true ∨ c = '.' := by
  have digits {value : Nat} (inside : c ∈ Nat.toDigits 10 value) : c.isDigit = true :=
    Nat.isDigit_of_mem_toDigits (by decide) (by decide) inside
  unfold chars at member
  split at member
  · exact Or.inl (digits member)
  · rcases List.mem_append.mp member with whole | behind
    · exact Or.inl (digits whole)
    · rcases List.mem_cons.mp behind with point | fraction
      · exact Or.inr point
      · exact Or.inl (isDigit_fractionDigits c fraction)

theorem Number.not_closing_of_mem_text {x : Number} {c : Char} (member : c ∈ x.text.toList) :
    c ≠ '>' := by
  cases x with
  | negInf =>
    have absent : (negInf).text.toList.contains '>' = false := by decide
    intro same
    subst same
    rw [List.contains_iff_mem.mpr member] at absent
    cases absent
  | posInf =>
    have absent : (posInf).text.toList.contains '>' = false := by decide
    intro same
    subst same
    rw [List.contains_iff_mem.mpr member] at absent
    cases absent
  | finite negative magnitude =>
    rw [toList_text_finite] at member
    rcases List.mem_append.mp member with sign | digits
    · have minus : c = '-' := by
        cases negative with
        | true => simpa using sign
        | false => simp at sign
      intro given
      subst given
      cases minus
    · rcases Decimal.mem_chars digits with digit | point
      · intro given
        subst given
        exact absurd digit (by decide)
      · intro given
        subst given
        cases point

theorem Reference.not_closing_of_mem_rangeChars {ranges : List Range} {c : Char}
    (member : c ∈ Reference.rangeChars ranges) : c ≠ '>' := by
  obtain ⟨range, -, inside⟩ := List.mem_flatMap.mp member
  rw [Range.toList_text] at inside
  simp only [List.mem_cons, List.mem_append, List.not_mem_nil, or_false] at inside
  rcases inside with rfl | rfl | low | rfl | high | rfl
  · decide
  · decide
  · exact Number.not_closing_of_mem_text low
  · decide
  · exact Number.not_closing_of_mem_text high
  · decide

/-! ### The lexeme of a token -/

/-- Characters that would go on with a keyword in front of them or turn it into a call. -/
def continuesToken (c : Char) : Bool :=
  isIdentifierChar c || c == '('

namespace Lexeme

/-- Texts of tokens: references between angle brackets, calls and identifiers. -/
inductive IsToken : List Char → Prop where
  | angled {inside : List Char} (nonempty : inside ≠ []) (unclosed : ∀ c ∈ inside, c ≠ '>') :
    IsToken ('<' :: inside ++ ['>'])
  | call {name arguments : List Char} (nonempty : name ≠ [])
    (letters : ∀ c ∈ name, isIdentifierChar c = true)
    (enclosed : Enclosable Nesting.outside arguments) : IsToken (Call.chars ⟨name, arguments⟩)
  | identifier {name : List Char} (nonempty : name ≠ [])
    (letters : ∀ c ∈ name, isIdentifierChar c = true) : IsToken name

theorem isToken_of_readToken? {cs text rest : List Char}
    (read : readToken? cs = some (text, rest)) : IsToken text := by
  unfold readToken? at read
  split at read
  · next found =>
    cases read
    unfold readAngled? at found
    split at found
    · next after =>
      split at found
      · next c more left taken _ =>
        cases found
        refine .angled (List.cons_ne_nil _ _) fun d member => ?_
        rw [← taken] at member
        simpa using List.mem_takeWhile_imp member
      · cases found
    · cases found
  · split at read
    · next found =>
      cases read
      obtain ⟨after, named, closed⟩ := call?_eq_some_iff.mp found
      exact .call (identifier?_eq_some named).2 (letters_of_identifier? named)
        (enclosable_of_enclosed? closed)
    · exact .identifier (identifier?_eq_some read).2 (letters_of_identifier? read)

/-- A token is read whole, unless what follows it would go on with it. -/
theorem IsToken.readToken? {text : List Char} (shape : IsToken text) {rest : List Char}
    (stop : StopsBefore continuesToken rest) :
    readToken? (text ++ rest) = some (text, rest) := by
  have unangled {name : List Char} (nonempty : name ≠ [])
      (letters : ∀ c ∈ name, isIdentifierChar c = true) (more : List Char) :
      readAngled? (name ++ more) = none := by
    cases name with
    | nil => exact absurd rfl nonempty
    | cons c cs =>
      exact readAngled?_eq_none
        (Reference.not_angle_of_letter (letters c List.mem_cons_self)) _
  cases shape with
  | angled nonempty unclosed =>
    have read := readAngled?_closed nonempty unclosed rest
    simp only [List.cons_append, List.append_assoc, List.nil_append]
    rw [Lexeme.readToken?, read]
    rfl
  | call nonempty letters enclosed =>
    have call := call?_append nonempty letters enclosed rest
    simp only [Call.chars, List.append_assoc, List.cons_append, List.nil_append]
    rw [Lexeme.readToken?, unangled nonempty letters, call]
    simp [Call.chars]
  | identifier nonempty letters =>
    have noLetter : StopsBefore isIdentifierChar rest := by
      intro c first
      have := stop c first
      simp only [continuesToken, Bool.or_eq_false_iff] at this
      exact this.1
    have noCall : rest.head? ≠ some '(' := by
      intro first
      have := stop '(' first
      simp [continuesToken] at this
    have word := identifier?_append nonempty letters noLetter
    rw [Lexeme.readToken?, unangled nonempty letters]
    simp only [call?_eq_none word noCall, word]

theorem IsToken.next? {text : List Char} (shape : IsToken text) {rest : List Char}
    (stop : StopsBefore continuesToken rest) :
    next? (text ++ rest) = some (token (String.ofList text), rest) := by
  have read := shape.readToken? stop
  obtain ⟨c, more, whole, start⟩ := readToken?_head read
  have different := not_mem_of_starts_token start
  rw [whole] at read ⊢
  rw [next?_of_not_delimiter (fun member => different (List.mem_append_left _ member)),
    readMultiplier?_eq_none (fun member => different (List.mem_append_right _ member)), read]
  rfl

/-- A reference is written as a token. -/
theorem isToken_text {reference : Reference} (proper : reference.Proper) :
    IsToken reference.text.toList := by
  cases reference with
  | typed name ranges =>
    obtain ⟨nonempty, letters⟩ := proper
    have shape : IsToken ('<' :: (name.toList ++ Reference.rangeChars ranges) ++ ['>']) := by
      refine .angled (by simp [nonempty]) fun c member => ?_
      rcases List.mem_append.mp member with named | ranged
      · intro given
        subst given
        exact absurd (letters '>' named) (by decide +kernel)
      · exact Reference.not_closing_of_mem_rangeChars ranged
    rw [Reference.toList_typed]
    simpa using shape
  | keyword name =>
    rw [Reference.toList_keyword]
    exact .identifier proper.1 proper.2
  | function name arguments =>
    obtain ⟨nonempty, letters, enclosed, -⟩ := proper
    rw [Reference.toList_function]
    simpa [Call.chars] using IsToken.call nonempty letters enclosed

/-! ### Single lexemes in front of a text -/

theorem readAll_nil : readAll [] = .ok [] :=
  readAll_of_blank rfl

theorem readAll_cons {c : Char} {x : Lexeme} {more rest : List Char} (solid : isBlank c = false)
    (h : next? (c :: more) = some (x, rest)) :
    readAll (c :: more) = (readAll rest).map (x :: ·) := by
  have stays : dropBlanks (c :: more) = c :: more := dropBlanks_eq_self (.cons solid more)
  exact readAll_of_next? (stays.symm ▸ h)

theorem readAll_blank (c : Char) (blank : isBlank c = true) (rest : List Char) :
    readAll (c :: rest) = readAll rest := by
  have drop : dropBlanks (c :: rest) = dropBlanks rest := by simp [dropBlanks, blank]
  rw [← readAll_dropBlanks, drop, readAll_dropBlanks]

theorem readAll_opening (rest : List Char) :
    readAll ('[' :: rest) = (readAll rest).map (opening :: ·) :=
  readAll_cons (by decide) rfl

theorem readAll_closing (rest : List Char) :
    readAll (']' :: rest) = (readAll rest).map (closing :: ·) :=
  readAll_cons (by decide) rfl

theorem readAll_token {text : List Char} (shape : IsToken text) {rest : List Char}
    (stop : StopsBefore continuesToken rest) :
    readAll (text ++ rest) = (readAll rest).map (token (String.ofList text) :: ·) := by
  have next := shape.next? stop
  obtain ⟨c, more, whole, start⟩ := readToken?_head (shape.readToken? stop)
  have solid : isBlank c = false := by
    rcases start with rfl | letter
    · decide
    · exact isBlank_of_isIdentifierChar letter
  rw [whole] at next ⊢
  exact readAll_cons solid next

/-- A reference is read as one token, unless what follows it would go on with it. -/
theorem readAll_text {reference : Reference} (proper : reference.Proper) {rest : List Char}
    (stop : StopsBefore continuesToken rest) :
    readAll (reference.text.toList ++ rest) = (readAll rest).map (token reference.text :: ·) := by
  rw [readAll_token (isToken_text proper) stop, String.ofList_toList]

end Lexeme

/-! ### Rows of tokens -/

def Separator.lexemes : Separator → List Lexeme
  | .space => []
  | .comma => [.comma]
  | .slash => [.slash]

def Lexeme.row : List String → List Separator → List Lexeme
  | [], _ => []
  | [text], _ => [.token text]
  | text :: texts, separators =>
    .token text :: ((separators.headD .space).lexemes ++ Lexeme.row texts separators.tail)

theorem Separator.text_stops (separator : Separator) (rest : List Char) :
    StopsBefore continuesToken (separator.text.toList ++ rest) := by
  cases separator <;> exact .cons (by decide +kernel) _

theorem Separator.readAll_text (separator : Separator) (rest : List Char) :
    Lexeme.readAll (separator.text.toList ++ rest) =
      (Lexeme.readAll rest).map (separator.lexemes ++ ·) := by
  have blank (more : List Char) : Lexeme.readAll (' ' :: more) = Lexeme.readAll more :=
    Lexeme.readAll_blank ' ' (by decide) more
  cases separator with
  | space =>
    change Lexeme.readAll (' ' :: rest) = _
    rw [blank]
    cases Lexeme.readAll rest <;> rfl
  | comma =>
    have sign : Lexeme.readAll (',' :: ' ' :: rest) =
        (Lexeme.readAll (' ' :: rest)).map (.comma :: ·) :=
      Lexeme.readAll_cons (by decide) rfl
    change Lexeme.readAll (',' :: ' ' :: rest) = _
    rw [sign, blank]
    rfl
  | slash =>
    have sign : Lexeme.readAll ('/' :: ' ' :: rest) =
        (Lexeme.readAll (' ' :: rest)).map (.slash :: ·) :=
      Lexeme.readAll_cons (by decide) rfl
    change Lexeme.readAll (' ' :: '/' :: ' ' :: rest) = _
    rw [blank, sign, blank]
    rfl

/-- Written tokens with separators between them are read as their lexemes. -/
theorem Lexeme.readAll_join {texts : List String} (written : ∀ text ∈ texts, Written text)
    (separators : List Separator) :
    Lexeme.readAll (Separator.join texts separators).toList = .ok (Lexeme.row texts separators) := by
  induction texts generalizing separators with
  | nil => exact Lexeme.readAll_nil
  | cons text texts ih =>
    obtain ⟨reference, proper, rfl⟩ := (written text List.mem_cons_self).proper
    cases texts with
    | nil =>
      have read := Lexeme.readAll_text proper (.nil continuesToken)
      rw [List.append_nil, Lexeme.readAll_nil] at read
      exact read
    | cons next texts =>
      have later := ih (fun other member => written other (List.mem_cons_of_mem _ member))
        separators.tail
      have shape : (Separator.join (reference.text :: next :: texts) separators).toList =
          reference.text.toList ++ ((separators.headD .space).text.toList ++
            (Separator.join (next :: texts) separators.tail).toList) := by
        simp only [Separator.join, String.toList_append, List.append_assoc]
      rw [shape, Lexeme.readAll_text proper (Separator.text_stops _ _), Separator.readAll_text,
        later]
      rfl

theorem Lexeme.row_cons (text : String) (texts : List String) (separators : List Separator) :
    ∃ behind, Lexeme.row (text :: texts) separators = .token text :: behind := by
  cases texts with
  | nil => exact ⟨[], rfl⟩
  | cons next texts => exact ⟨_, rfl⟩

/-- The token behind a separator shows where the separator ends. -/
theorem Separator.lexemes_append_inj {separator separator' : Separator} {text text' : String}
    {behind behind' : List Lexeme}
    (same : separator.lexemes ++ .token text :: behind =
      separator'.lexemes ++ .token text' :: behind') :
    separator = separator' ∧ Lexeme.token text :: behind = .token text' :: behind' := by
  cases separator <;> cases separator' <;> simp_all [Separator.lexemes]

/-- The lexemes of a row determine its tokens and its separators. -/
theorem Lexeme.row_injective {texts texts' : List String} {separators separators' : List Separator}
    (length : separators.length = texts.length - 1)
    (length' : separators'.length = texts'.length - 1)
    (same : Lexeme.row texts separators = Lexeme.row texts' separators') :
    texts = texts' ∧ separators = separators' := by
  induction texts generalizing texts' separators separators' with
  | nil =>
    cases texts' with
    | nil => simp_all
    | cons text texts =>
      obtain ⟨behind, row⟩ := Lexeme.row_cons text texts separators'
      rw [row] at same
      cases same
  | cons text texts ih =>
    cases texts' with
    | nil =>
      obtain ⟨behind, row⟩ := Lexeme.row_cons text texts separators
      rw [row] at same
      cases same
    | cons text' texts' =>
      cases texts with
      | nil =>
        cases texts' with
        | nil => simp_all [Lexeme.row]
        | cons next texts' =>
          obtain ⟨behind, row⟩ := Lexeme.row_cons next texts' separators'.tail
          simp [Lexeme.row, row] at same
      | cons next texts =>
        obtain ⟨behind, row⟩ := Lexeme.row_cons next texts separators.tail
        cases texts' with
        | nil => simp [Lexeme.row, row] at same
        | cons next' texts' =>
          obtain ⟨behind', row'⟩ := Lexeme.row_cons next' texts' separators'.tail
          cases separators with
          | nil => simp at length
          | cons separator separators =>
            cases separators' with
            | nil => simp at length'
            | cons separator' separators' =>
              simp only [Lexeme.row, List.cons.injEq, Lexeme.token.injEq, List.headD_cons,
                List.tail_cons] at same row row'
              obtain ⟨rfl, same⟩ := same
              rw [row, row'] at same
              obtain ⟨rfl, rest⟩ := Separator.lexemes_append_inj same
              rw [← row, ← row'] at rest
              obtain ⟨texts_eq, separators_eq⟩ :=
                ih (by simpa using length) (by simpa using length') rest
              exact ⟨by rw [texts_eq], by rw [separators_eq]⟩

/-- The text of a row of written tokens determines its tokens and its separators. -/
theorem Separator.join_injective {texts texts' : List String}
    {separators separators' : List Separator} (written : ∀ text ∈ texts, Written text)
    (written' : ∀ text ∈ texts', Written text) (length : separators.length = texts.length - 1)
    (length' : separators'.length = texts'.length - 1)
    (same : Separator.join texts separators = Separator.join texts' separators') :
    texts = texts' ∧ separators = separators' := by
  have read := Lexeme.readAll_join written separators
  rw [same, Lexeme.readAll_join written' separators'] at read
  exact Lexeme.row_injective length length' (Except.ok.inj read).symm

end ValueGrammar
