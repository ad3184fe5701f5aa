import ValueGrammar.Proofs.Expansion.Composition

/-!
Blanks around a grammar. Every reader takes the same characters whether or not blanks end the text,
so a grammar can be read exactly if the grammar without the blanks at its ends can, and its lexemes
are the same.
-/
namespace ValueGrammar

open Unicode Text

def AllBlank (ds : List Char) : Prop :=
  ∀ c ∈ ds, isBlank c = true

namespace AllBlank

variable {ds : List Char}

theorem ne {c : Char} (blank : AllBlank ds) (solid : isBlank c = false) : c ∉ ds := by
  intro member
  rw [blank c member] at solid
  cases solid

theorem head?_ne {c : Char} (blank : AllBlank ds) (solid : isBlank c = false) :
    ds.head? ≠ some c :=
  fun first => blank.ne solid (List.mem_of_mem_head? first)

theorem stops {p : Char → Bool} (blank : AllBlank ds)
    (solid : ∀ c, p c = true → isBlank c = false) : StopsBefore p ds := by
  intro c first
  by_contra passed
  have none := solid c (by simpa using passed)
  rw [blank c (List.mem_of_mem_head? first)] at none
  cases none

end AllBlank

theorem isBlank_of_isDigit {c : Char} (digit : c.isDigit = true) : isBlank c = false := by
  have bounds : 48 ≤ c.toNat ∧ c.toNat ≤ 57 := by
    simpa [Char.isDigit, UInt32.le_iff_toNat_le] using digit
  by_contra found
  rw [Bool.not_eq_false] at found
  obtain ⟨interval, member, low, high⟩ := Table.contains_iff.mp found
  simp only [blankTable, List.mem_cons, List.not_mem_nil, or_false] at member
  rcases member with rfl | rfl | rfl | rfl | rfl | rfl | rfl | rfl | rfl | rfl <;>
    simp only at low high <;> omega

namespace Text

variable {cs ds : List Char}

theorem takeWhile_append_of_stops (cs : List Char) {p : Char → Bool} (stop : StopsBefore p ds) :
    (cs ++ ds).takeWhile p = cs.takeWhile p ∧ (cs ++ ds).dropWhile p = cs.dropWhile p ++ ds := by
  induction cs with
  | nil =>
    rw [List.nil_append, dropWhile_eq_self stop]
    have none : ([] ++ ds).takeWhile p = [] := takeWhile_append_stop (by simp) stop
    exact ⟨none, rfl⟩
  | cons c cs ih =>
    by_cases passed : p c = true
    · simp only [List.cons_append, List.takeWhile_cons_of_pos passed,
        List.dropWhile_cons_of_pos passed, ih, and_self]
    · simp [passed]

/-! ### Words -/

theorem identifier?_blank (blank : AllBlank ds) :
    identifier? (cs ++ ds) = (identifier? cs).map (Prod.map id (· ++ ds)) := by
  have same := takeWhile_append_of_stops cs
    (blank.stops fun _ letter => isBlank_of_isIdentifierChar letter)
  unfold identifier?
  rw [same.1, same.2]
  split <;> rfl

theorem enclosed?_eq_none {nesting : Nesting} (closing : ')' ∉ ds) : enclosed? nesting ds = none := by
  induction ds generalizing nesting with
  | nil => rfl
  | cons c ds ih =>
    rw [List.mem_cons, not_or] at closing
    rw [enclosed?, if_neg fun stop => closing.1 stop.1.symm, ih closing.2]
    rfl

theorem enclosed?_blank {nesting : Nesting} (blank : AllBlank ds) :
    enclosed? nesting (cs ++ ds) = (enclosed? nesting cs).map (Prod.map id (· ++ ds)) := by
  induction cs generalizing nesting with
  | nil => exact enclosed?_eq_none (blank.ne (by decide))
  | cons c cs ih =>
    rw [List.cons_append, enclosed?, enclosed?]
    split
    · rfl
    · rw [ih, Option.map_map, Option.map_map]
      rfl

theorem call?_blank (blank : AllBlank ds) :
    call? (cs ++ ds) = (call? cs).map (Prod.map id (· ++ ds)) := by
  unfold call?
  rw [identifier?_blank blank]
  rcases identifier? cs with - | ⟨name, after⟩
  · rfl
  · cases after with
    | nil =>
      have noCall := blank.head?_ne (c := '(') (by decide)
      cases ds with
      | nil => rfl
      | cons d ds =>
        simp only [Option.map_some, Prod.map, id_eq, List.nil_append]
        split
        · next eq =>
          cases eq
          exact absurd rfl noCall
        · rfl
    | cons c after =>
      simp only [Option.map_some, Prod.map, id_eq, List.cons_append]
      by_cases opening : c = '('
      · subst opening
        simp only [enclosed?_blank blank, Option.map_map]
        rfl
      · split
        · next eq =>
          cases eq
          exact absurd rfl opening
        · split
          · next eq =>
            cases eq
            exact absurd rfl opening
          · rfl

end Text

namespace Lexeme

variable {cs ds : List Char}

/-! ### Lexemes -/

theorem readCount?_blank (blank : AllBlank ds) :
    readCount? (cs ++ ds) = (readCount? cs).map (Prod.map id (· ++ ds)) := by
  have same := takeWhile_append_of_stops cs
    (blank.stops fun _ digit => isBlank_of_isDigit digit)
  unfold readCount?
  rw [same.1, same.2]
  split
  · rfl
  · dsimp only
    split <;> rfl

theorem readGreatest_blank (min : Nat) (blank : AllBlank ds) :
    readGreatest min (cs ++ ds) = (readGreatest min cs).map id (· ++ ds) := by
  cases cs with
  | nil =>
    have noComma := blank.head?_ne (c := ',') (by decide)
    rw [List.nil_append]
    unfold readGreatest
    split
    · exact absurd rfl noComma
    · rfl
  | cons c cs =>
    by_cases comma : c = ','
    · subst comma
      simp only [List.cons_append, readGreatest, readCount?_blank blank]
      rcases readCount? cs with - | ⟨max, rest⟩ <;> rfl
    · unfold readGreatest
      split
      · next eq => exact absurd (List.cons.inj eq).1 comma
      · split
        · next eq => exact absurd (List.cons.inj eq).1 comma
        · rfl

theorem readBraces?_blank (blank : AllBlank ds) :
    readBraces? (cs ++ ds) = (readBraces? cs).map (Prod.map id (· ++ ds)) := by
  cases cs with
  | nil => exact readBraces?_eq_none (blank.head?_ne (by decide))
  | cons c cs =>
    by_cases brace : c = '\x7b'
    · subst brace
      simp only [List.cons_append, readBraces?, readCount?_blank blank]
      rcases readCount? cs with - | ⟨min, rest⟩
      · rfl
      · simp only [Option.map_some, Prod.map, id_eq, readGreatest_blank min blank]
        rcases readGreatest min rest with ⟨max?, - | ⟨d, behind⟩⟩
        · have open' := blank.head?_ne (c := '\x7d') (by decide)
          split
          · next eq =>
            rw [List.nil_append] at eq
            rw [eq] at open'
            exact absurd rfl open'
          · rfl
        · by_cases closing : d = '\x7d'
          · subst closing
            rfl
          · split
            · next eq => exact absurd (List.cons.inj eq).1 closing
            · split
              · next eq => exact absurd (List.cons.inj eq).1 closing
              · rfl
    · have other (rest : List Char) : readBraces? (c :: rest) = none :=
        readBraces?_eq_none (by simpa using brace)
      rw [List.cons_append, other, other]
      rfl

theorem readMultiplier?_blank (blank : AllBlank ds) :
    readMultiplier? (cs ++ ds) = (readMultiplier? cs).map (Prod.map id (· ++ ds)) := by
  cases cs with
  | nil =>
    cases ds with
    | nil => rfl
    | cons d ds =>
      have all : multiplierChars.all (fun c => !Unicode.isBlank c) = true := by decide
      refine readMultiplier?_eq_none (fun member => ?_) ds
      have solid := List.all_eq_true.mp all d member
      exact blank.ne (by simpa using solid) List.mem_cons_self
  | cons c cs =>
    by_cases sign : c = '?' ∨ c = '*' ∨ c = '+'
    · rcases sign with rfl | rfl | rfl <;> rfl
    · by_cases hash : c = '#'
      · subst hash
        simp only [List.cons_append, readMultiplier?, readBraces?_blank blank]
        rcases readBraces? cs with - | ⟨⟨min, max?⟩, rest⟩ <;> rfl
      · have braces (rest : List Char) : readMultiplier? (c :: rest) =
            (readBraces? (c :: rest)).map fun read => (⟨read.1.1, read.1.2, false⟩, read.2) := by
          simp only [not_or] at sign
          unfold readMultiplier?
          split <;> simp_all
        rw [List.cons_append, braces, braces, ← List.cons_append, readBraces?_blank blank,
          Option.map_map, Option.map_map]
        rfl

theorem readAngled?_blank (blank : AllBlank ds) :
    readAngled? (cs ++ ds) = (readAngled? cs).map (Prod.map id (· ++ ds)) := by
  cases cs with
  | nil =>
    cases ds with
    | nil => rfl
    | cons d ds =>
      refine readAngled?_eq_none (fun angle => ?_) ds
      exact blank.ne (c := '<') (by decide) (angle ▸ List.mem_cons_self)
  | cons c cs =>
    by_cases angle : c = '<'
    · subst angle
      -- Without a closing bracket the blanks are inside, and still no bracket follows.
      by_cases closed : cs.dropWhile (· != '>') = []
      · have inside : ∀ d ∈ cs ++ ds, (d != '>') = true := by
          intro d member
          rcases List.mem_append.mp member with front | back
          · exact List.dropWhile_eq_nil_iff.mp closed d front
          · rw [bne_iff_ne]
            intro same
            exact blank.ne (c := '>') (by decide) (same ▸ back)
        have open' := List.dropWhile_eq_nil_iff.mpr inside
        simp only [List.cons_append, readAngled?, closed, open']
        rcases (cs ++ ds).takeWhile (· != '>') with - | ⟨d, more⟩ <;>
          rcases cs.takeWhile (· != '>') with - | ⟨d', more'⟩ <;> rfl
      · have same := takeWhile_append_left closed ds
        have stop := dropWhile_stops (· != '>') cs
        simp only [List.cons_append, readAngled?, same.1, same.2]
        rcases after : cs.dropWhile (· != '>') with - | ⟨d, behind⟩
        · exact absurd after closed
        · have bracket : d = '>' := by simpa using stop d (by simp [after])
          subst bracket
          rcases cs.takeWhile (· != '>') with - | ⟨d, more⟩ <;> rfl
    · rw [List.cons_append, readAngled?_eq_none angle, readAngled?_eq_none angle]
      rfl

theorem readToken?_blank (blank : AllBlank ds) :
    readToken? (cs ++ ds) = (readToken? cs).map (Prod.map id (· ++ ds)) := by
  unfold readToken?
  rw [readAngled?_blank blank, call?_blank blank, identifier?_blank blank]
  rcases readAngled? cs with - | read
  · rcases call? cs with - | read <;> rfl
  · rfl

theorem next?_blank (c : Char) (cs : List Char) (blank : AllBlank ds) :
    next? (c :: cs ++ ds) = (next? (c :: cs)).map (Prod.map id (· ++ ds)) := by
  by_cases delimiter : c ∈ delimiterChars
  · simp only [delimiterChars, List.mem_cons, List.not_mem_nil, or_false] at delimiter
    rcases delimiter with rfl | rfl | rfl | rfl | rfl | rfl
    · cases cs with
      | nil =>
        rw [List.singleton_append, next?_bar (blank.head?_ne (by decide)), next?_bar (by simp)]
        rfl
      | cons d cs =>
        by_cases second : d = '|'
        · subst second
          rfl
        · have single (rest : List Char) : next? ('|' :: d :: rest) = some (bar, d :: rest) :=
            next?_bar (by simpa using second)
          rw [List.cons_append, List.cons_append, single, single]
          rfl
    · cases cs with
      | nil =>
        have none (rest : List Char) (single : rest.head? ≠ some '&') : next? ('&' :: rest) = none := by
          rw [Option.eq_none_iff_forall_ne_some]
          intro read found
          rw [(next?_ampersand found).1] at single
          exact single rfl
        rw [List.singleton_append, none ds (blank.head?_ne (by decide)), none [] (by simp)]
        rfl
      | cons d cs =>
        by_cases second : d = '&'
        · subst second
          rfl
        · have none (rest : List Char) : next? ('&' :: d :: rest) = none := by
            rw [Option.eq_none_iff_forall_ne_some]
            intro read found
            exact second (List.cons.inj (next?_ampersand found).1).1
          rw [List.cons_append, List.cons_append, none, none]
          rfl
    all_goals rfl
  · rw [List.cons_append, next?_of_not_delimiter delimiter, next?_of_not_delimiter delimiter,
      ← List.cons_append, readMultiplier?_blank blank, readToken?_blank blank]
    rcases readMultiplier? (c :: cs) with - | read
    · simp only [Option.map_none, Option.map_map]
      rfl
    · rfl

/-! ### Grammars -/

/-- Blanks behind a text change nothing but the text that is left where no lexeme starts. -/
theorem readAll_append_blank (blank : AllBlank ds) :
    readAll (cs ++ ds) = (readAll cs).mapError (· ++ ds) := by
  induction size : cs.length using Nat.strong_induction_on generalizing cs with
  | _ n ih =>
    subst size
    cases start : dropBlanks cs with
    | nil =>
      have none : dropBlanks (cs ++ ds) = [] := by
        rw [dropBlanks, List.dropWhile_eq_nil_iff] at start ⊢
        intro c member
        exact (List.mem_append.mp member).elim (start c) (blank c)
      rw [readAll_of_blank start, readAll_of_blank none]
      rfl
    | cons c more =>
      have stopped : cs.dropWhile Unicode.isBlank ≠ [] := by
        rw [← dropBlanks, start]
        exact List.cons_ne_nil c more
      have behind : dropBlanks (cs ++ ds) = c :: more ++ ds := by
        rw [← start]
        exact (takeWhile_append_left stopped ds).2
      have next := next?_blank c more blank
      cases found : next? (c :: more) with
      | none =>
        rw [found] at next
        rw [readAll_eq, readAll_eq cs, start, behind, List.cons_append]
        dsimp only
        rw [← List.cons_append, next, found]
        rfl
      | some read =>
        obtain ⟨x, rest⟩ := read
        have shorter : rest.length < cs.length := by
          have first := next?_shorter found
          have atMost := length_dropBlanks_le cs
          rw [start] at atMost
          omega
        rw [found, ← behind] at next
        rw [← start] at found
        rw [readAll_of_next? next, readAll_of_next? found, id_eq, ih _ shorter rfl]
        cases readAll rest <;> rfl

/-- The blanks at the ends of a grammar are not among its lexemes. -/
theorem ofGrammar_trim {grammar : String} {xs : List Lexeme} :
    ofGrammar (Text.trim grammar) = .ok xs ↔ ofGrammar grammar = .ok xs := by
  refine ⟨ofGrammar_of_trim, fun read => ?_⟩
  obtain ⟨before, after, blankBefore, blankAfter, whole⟩ := Text.exists_trimChars grammar.toList
  have drop : dropBlanks grammar.toList = dropBlanks (trimChars grammar.toList ++ after) := by
    conv_lhs => rw [whole, List.append_assoc]
    exact List.dropWhile_append_of_pos blankBefore
  rw [ofGrammar_eq_ok, ← readAll_dropBlanks, drop, readAll_dropBlanks,
    readAll_append_blank blankAfter] at read
  rw [ofGrammar_eq_ok, Text.trim, String.toList_ofList]
  cases front : readAll (trimChars grammar.toList) with
  | error rest =>
    rw [front] at read
    cases read
  | ok ys =>
    rw [front] at read
    cases read
    rfl

end Lexeme

/-- A grammar and the grammar without the blanks at its ends have the same substitution. -/
theorem Registry.substitute_trim {registry : Registry} {grammar : String}
    {substitution : Substitution} :
    registry.substitute (Text.trim grammar) = .ok substitution ↔
      registry.substitute grammar = .ok substitution := by
  unfold substitute
  rw [bind_eq_ok, bind_eq_ok]
  simp only [Lexeme.ofGrammar_trim]

end ValueGrammar
