import Mathlib.Data.List.TakeWhile
import ValueGrammar.Text.Trim
import ValueGrammar.Text.Word

/-!
Trimming, identifiers and enclosed arguments as they meet further text. Blanks are never identifier
characters, a reader that stopped inside a text stops at the same place when more text follows, and
arguments without the blanks around them are still enclosed by the same parentheses.
-/
namespace ValueGrammar.Text

open Unicode

/-- No interval of blanks meets an interval of letters and numbers. -/
theorem blank_alphanumeric_disjoint :
    ∀ blank ∈ blankTable, ∀ letter ∈ alphanumericTable, letter.2 < blank.1 ∨ blank.2 < letter.1 := by
  decide +kernel

theorem isAlphanumeric_of_isBlank {c : Char} (blank : isBlank c = true) :
    isAlphanumeric c = false := by
  obtain ⟨interval, inBlank, low, high⟩ := Table.contains_iff.mp blank
  unfold isAlphanumeric
  split
  · next ascii =>
    have small : c.toNat ∈ List.range 0x80 := List.mem_range.mpr ascii
    have checked : ∀ n ∈ List.range 0x80, (∃ i ∈ blankTable, i.1 ≤ n ∧ n ≤ i.2) →
        (Char.ofNat n).isAlphanum = false := by decide +kernel
    have answer := checked c.toNat small ⟨interval, inBlank, low, high⟩
    rwa [Char.ofNat_toNat] at answer
  · by_contra found
    have member : alphanumericTable.contains c = true := by simpa using found
    obtain ⟨letter, inLetters, low', high'⟩ := Table.contains_iff.mp member
    have apart := blank_alphanumeric_disjoint interval inBlank letter inLetters
    omega

theorem isBlank_of_isIdentifierChar {c : Char} (letter : isIdentifierChar c = true) :
    isBlank c = false := by
  by_contra found
  have blank : isBlank c = true := by simpa using found
  have notLetter := isAlphanumeric_of_isBlank blank
  simp only [isIdentifierChar, notLetter, Bool.false_or, Bool.or_eq_true, beq_iff_eq] at letter
  rcases letter with rfl | rfl
  · exact absurd blank (by decide)
  · exact absurd blank (by decide)

/-- The first character that a text starts with, if it has one, does not satisfy `p`. -/
def StopsBefore (p : Char → Bool) (cs : List Char) : Prop :=
  ∀ c ∈ cs.head?, p c = false

theorem StopsBefore.nil (p : Char → Bool) : StopsBefore p [] := by
  simp [StopsBefore]

theorem StopsBefore.cons {p : Char → Bool} {c : Char} (stop : p c = false) (cs : List Char) :
    StopsBefore p (c :: cs) := by
  simpa [StopsBefore] using stop

theorem takeWhile_append_stop {p : Char → Bool} {front rest : List Char}
    (all : ∀ c ∈ front, p c = true) (stop : StopsBefore p rest) :
    (front ++ rest).takeWhile p = front := by
  rw [List.takeWhile_append_of_pos all]
  cases rest with
  | nil => simp
  | cons c rest => simp [stop c (by simp)]

theorem dropWhile_append_stop {p : Char → Bool} {front rest : List Char}
    (all : ∀ c ∈ front, p c = true) (stop : StopsBefore p rest) :
    (front ++ rest).dropWhile p = rest := by
  rw [List.dropWhile_append_of_pos all]
  cases rest with
  | nil => rfl
  | cons c rest => simp [stop c (by simp)]

theorem dropWhile_eq_self {p : Char → Bool} {cs : List Char} (stop : StopsBefore p cs) :
    cs.dropWhile p = cs := by
  cases cs with
  | nil => rfl
  | cons c cs => simp [stop c (by simp)]

theorem dropWhile_stops (p : Char → Bool) (cs : List Char) : StopsBefore p (cs.dropWhile p) := by
  intro c first
  have := List.head?_dropWhile_not p cs
  rw [Option.mem_def.mp first] at this
  simpa using this

/-! ### Trimming -/

/-- A text is its trimmed part between blanks. -/
theorem exists_trimChars (cs : List Char) :
    ∃ before after, (∀ c ∈ before, isBlank c = true) ∧ (∀ c ∈ after, isBlank c = true) ∧
      cs = before ++ trimChars cs ++ after := by
  have front := List.takeWhile_append_dropWhile (p := isBlank) (l := cs)
  have back := List.takeWhile_append_dropWhile (p := isBlank) (l := (dropBlanks cs).reverse)
  refine ⟨cs.takeWhile isBlank, ((dropBlanks cs).reverse.takeWhile isBlank).reverse, ?_, ?_, ?_⟩
  · intro c member
    exact List.mem_takeWhile_imp member
  · intro c member
    exact List.mem_takeWhile_imp (List.mem_reverse.mp member)
  · have restored := congrArg List.reverse back
    rw [List.reverse_append, List.reverse_reverse] at restored
    rw [List.append_assoc, trimChars]
    change cs = cs.takeWhile isBlank ++ _
    rw [dropBlanks, restored]
    exact front.symm

theorem dropBlanks_eq_self {cs : List Char} (stop : StopsBefore isBlank cs) :
    dropBlanks cs = cs :=
  dropWhile_eq_self stop

/-- A text without blanks at its ends is its own trimmed part. -/
theorem trimChars_eq_self {cs : List Char} (first : StopsBefore isBlank cs)
    (last : StopsBefore isBlank cs.reverse) : trimChars cs = cs := by
  rw [trimChars, dropBlanks_eq_self first, dropBlanks_eq_self last, List.reverse_reverse]

theorem trimChars_stops (cs : List Char) :
    StopsBefore isBlank (trimChars cs) ∧ StopsBefore isBlank (trimChars cs).reverse := by
  have last : StopsBefore isBlank (trimChars cs).reverse := by
    rw [trimChars, List.reverse_reverse]
    exact dropWhile_stops isBlank _
  refine ⟨?_, last⟩
  intro c first
  have front := dropWhile_stops isBlank cs
  -- Dropping blanks at the end leaves a prefix, so the first character stays what it was.
  have isPrefixed : trimChars cs <+: dropBlanks cs := by
    have suffix := List.dropWhile_suffix isBlank (l := (dropBlanks cs).reverse)
    have turned := List.reverse_prefix.mpr suffix
    rwa [List.reverse_reverse] at turned
  obtain ⟨rest, whole⟩ := isPrefixed
  apply front c
  change c ∈ (dropBlanks cs).head?
  rw [← whole, List.head?_append]
  rw [Option.mem_def.mp first]
  simp

theorem trimChars_trimChars (cs : List Char) : trimChars (trimChars cs) = trimChars cs :=
  trimChars_eq_self (trimChars_stops cs).1 (trimChars_stops cs).2

theorem trim_trim (text : String) : trim (trim text) = trim text := by
  simp [trim, trimChars_trimChars]

/-! ### Enclosed text -/

/-- A scanner is outside quotes or inside a quote that a quote character opened. -/
def QuoteIsQuote (nesting : Nesting) : Prop :=
  ∀ q, nesting.quote? = some q → isQuote q = true

theorem QuoteIsQuote.advance {nesting : Nesting} (quoted : QuoteIsQuote nesting) (c : Char) :
    QuoteIsQuote (nesting.advance c) := by
  intro q opened
  unfold Nesting.advance at opened
  split at opened
  · split at opened
    · cases opened
    · exact quoted q opened
  · split at opened
    · next isOpening =>
      cases opened
      exact isOpening
    · split at opened
      · cases opened
      · split at opened
        · cases opened
        · exact quoted q opened

/-- Blanks never change the nesting. -/
theorem advance_blank {nesting : Nesting} (quoted : QuoteIsQuote nesting) {c : Char}
    (blank : isBlank c = true) : nesting.advance c = nesting := by
  have notQuote : isQuote c = false := by
    by_contra found
    simp only [isQuote, Bool.not_eq_false, Bool.or_eq_true, beq_iff_eq] at found
    rcases found with rfl | rfl
    · exact absurd blank (by decide)
    · exact absurd blank (by decide)
  have notOpening : c ≠ '(' := by
    intro given
    subst given
    exact absurd blank (by decide)
  have notClosing : c ≠ ')' := by
    intro given
    subst given
    exact absurd blank (by decide)
  unfold Nesting.advance
  split
  · next quote inside =>
    have different : c ≠ quote := by
      intro given
      subst given
      rw [quoted c inside] at notQuote
      cases notQuote
    rw [if_neg different]
  · simp [notQuote, notOpening, notClosing]

theorem enclosed?_append {nesting : Nesting} {cs inner rest : List Char}
    (h : enclosed? nesting cs = some (inner, rest)) (more : List Char) :
    enclosed? nesting (cs ++ more) = some (inner, rest ++ more) := by
  induction cs generalizing nesting inner with
  | nil => simp [enclosed?] at h
  | cons c cs ih =>
    rw [List.cons_append]
    unfold enclosed? at h ⊢
    split
    · next stop =>
      rw [if_pos stop] at h
      cases h
      rfl
    · next go =>
      rw [if_neg go] at h
      obtain ⟨⟨within, beyond⟩, found, eq⟩ := Option.map_eq_some_iff.mp h
      simp only [Prod.mk.injEq] at eq
      obtain ⟨rfl, rfl⟩ := eq
      rw [ih found]
      rfl

/-- A text that the parenthesis behind it encloses, with the scanner at `nesting` in front of it. -/
def Enclosable (nesting : Nesting) (inner : List Char) : Prop :=
  ∀ rest, enclosed? nesting (inner ++ ')' :: rest) = some (inner, rest)

theorem enclosable_of_enclosed? {nesting : Nesting} {cs inner rest : List Char}
    (h : enclosed? nesting cs = some (inner, rest)) : Enclosable nesting inner := by
  induction cs generalizing nesting inner with
  | nil => simp [enclosed?] at h
  | cons c cs ih =>
    intro beyond
    unfold enclosed? at h
    split at h
    · next stop =>
      cases h
      simp [enclosed?, stop.2]
    · next go =>
      obtain ⟨⟨within, left⟩, found, eq⟩ := Option.map_eq_some_iff.mp h
      simp only [Prod.mk.injEq] at eq
      obtain ⟨rfl, rfl⟩ := eq
      rw [List.cons_append, enclosed?, if_neg go, ih found beyond]
      rfl

theorem Enclosable.of_cons {nesting : Nesting} {c : Char} {inner : List Char}
    (go : ¬ (c = ')' ∧ nesting = Nesting.outside)) (h : Enclosable nesting (c :: inner)) :
    Enclosable (nesting.advance c) inner := by
  intro rest
  have step := h rest
  rw [List.cons_append, enclosed?, if_neg go] at step
  obtain ⟨⟨within, left⟩, found, eq⟩ := Option.map_eq_some_iff.mp step
  simp only [Prod.mk.injEq, List.cons.injEq, true_and] at eq
  rw [found, eq.1, eq.2]

theorem Enclosable.cons {nesting : Nesting} {c : Char} {inner : List Char}
    (go : ¬ (c = ')' ∧ nesting = Nesting.outside)) (h : Enclosable (nesting.advance c) inner) :
    Enclosable nesting (c :: inner) := by
  intro rest
  rw [List.cons_append, enclosed?, if_neg go, h rest]
  rfl

/-- The parenthesis that closes nothing deeper would have ended the text. -/
theorem Enclosable.head_goes_on {nesting : Nesting} {c : Char} {inner : List Char}
    (h : Enclosable nesting (c :: inner)) : ¬ (c = ')' ∧ nesting = Nesting.outside) := by
  intro stop
  have ended := h []
  rw [List.cons_append, enclosed?, if_pos stop] at ended
  simp at ended

theorem Enclosable.drop_blank_front {before inner : List Char}
    (blank : ∀ c ∈ before, isBlank c = true)
    (h : Enclosable Nesting.outside (before ++ inner)) : Enclosable Nesting.outside inner := by
  induction before with
  | nil => exact h
  | cons c before ih =>
    have goes := h.of_cons h.head_goes_on
    rw [advance_blank (by intro q opened; cases opened) (blank c (by simp))] at goes
    exact ih (fun d member => blank d (by simp [member])) goes

theorem Enclosable.drop_blank_back {nesting : Nesting} (quoted : QuoteIsQuote nesting)
    {inner after : List Char} (blank : ∀ c ∈ after, isBlank c = true)
    (h : Enclosable nesting (inner ++ after)) : Enclosable nesting inner := by
  induction inner generalizing nesting with
  | cons c inner ih =>
    exact .cons h.head_goes_on (ih (quoted.advance c) (h.of_cons h.head_goes_on))
  | nil =>
    -- Behind blanks the scanner stands where it stood before them, so it stops here as well.
    have settled : ∀ after, (∀ c ∈ after, isBlank c = true) → Enclosable nesting after →
        nesting = Nesting.outside := by
      intro after
      induction after with
      | nil =>
        intro _ ended
        by_contra elsewhere
        have step := ended []
        rw [List.nil_append, enclosed?, if_neg (fun stop => elsewhere stop.2)] at step
        simp [enclosed?] at step
      | cons c after ih =>
        intro blank ended
        have goes := ended.of_cons ended.head_goes_on
        rw [advance_blank quoted (blank c (by simp))] at goes
        exact ih (fun d member => blank d (by simp [member])) goes
    have outside := settled after blank (by simpa using h)
    intro rest
    simp [enclosed?, outside]

/-- Arguments stay enclosed when the blanks around them are dropped. -/
theorem Enclosable.trimChars {arguments : List Char}
    (h : Enclosable Nesting.outside arguments) :
    Enclosable Nesting.outside (Text.trimChars arguments) := by
  obtain ⟨before, after, blankBefore, blankAfter, whole⟩ := exists_trimChars arguments
  rw [whole, List.append_assoc] at h
  exact (h.drop_blank_front blankBefore).drop_blank_back (by intro q opened; cases opened) blankAfter

/-! ### Identifiers and calls -/

theorem identifier?_eq_some_iff {cs name rest : List Char} :
    identifier? cs = some (name, rest) ↔
      name ≠ [] ∧ name = cs.takeWhile isIdentifierChar ∧ rest = cs.dropWhile isIdentifierChar := by
  unfold identifier?
  constructor
  · intro h
    split at h
    · cases h
    · next nonempty =>
      simp only [Option.some.injEq, Prod.mk.injEq] at h
      exact ⟨h.1 ▸ nonempty, h.1.symm, h.2.symm⟩
  · intro given
    obtain ⟨nonempty, rfl, rfl⟩ := given
    split
    · next none => exact absurd none nonempty
    · rfl

/-- An identifier in front of anything that is no identifier character is read whole. -/
theorem identifier?_append {name rest : List Char} (nonempty : name ≠ [])
    (letters : ∀ c ∈ name, isIdentifierChar c = true) (stop : StopsBefore isIdentifierChar rest) :
    identifier? (name ++ rest) = some (name, rest) := by
  rw [identifier?_eq_some_iff]
  exact ⟨nonempty, (takeWhile_append_stop letters stop).symm,
    (dropWhile_append_stop letters stop).symm⟩

theorem letters_of_identifier? {cs name rest : List Char}
    (h : identifier? cs = some (name, rest)) :
    ∀ c ∈ name, isIdentifierChar c = true := by
  obtain ⟨-, rfl, -⟩ := identifier?_eq_some_iff.mp h
  intro c member
  exact List.mem_takeWhile_imp member

theorem identifier?_stops {cs name rest : List Char} (h : identifier? cs = some (name, rest)) :
    StopsBefore isIdentifierChar rest := by
  obtain ⟨-, -, rfl⟩ := identifier?_eq_some_iff.mp h
  exact dropWhile_stops isIdentifierChar cs

theorem call?_eq_some_iff {cs : List Char} {call : Call} {rest : List Char} :
    call? cs = some (call, rest) ↔
      ∃ after, identifier? cs = some (call.name, '(' :: after) ∧
        enclosed? Nesting.outside after = some (call.arguments, rest) := by
  unfold call?
  constructor
  · intro h
    split at h
    · next name after found =>
      obtain ⟨⟨inner, left⟩, inside, eq⟩ := Option.map_eq_some_iff.mp h
      simp only [Prod.mk.injEq] at eq
      obtain ⟨rfl, rfl⟩ := eq
      exact ⟨after, found, inside⟩
    · cases h
  · intro given
    obtain ⟨after, found, inside⟩ := given
    rw [found]
    simp [inside]

/-- A call is read whole, whatever follows it. -/
theorem call?_append {name arguments : List Char} (nonempty : name ≠ [])
    (letters : ∀ c ∈ name, isIdentifierChar c = true)
    (enclosed : Enclosable Nesting.outside arguments) (rest : List Char) :
    call? (name ++ '(' :: (arguments ++ ')' :: rest)) = some (⟨name, arguments⟩, rest) := by
  rw [call?_eq_some_iff]
  refine ⟨arguments ++ ')' :: rest, ?_, enclosed rest⟩
  exact identifier?_append nonempty letters (.cons (by decide +kernel) _)

/-- A word has no blanks at its ends. -/
theorem stops_of_letters {cs name : List Char} (letters : ∀ c ∈ name, isIdentifierChar c = true)
    (inside : ∀ c ∈ cs.head?, c ∈ name) : StopsBefore isBlank cs :=
  fun c first => isBlank_of_isIdentifierChar (letters c (inside c first))

theorem call_stops (call : Call) (nonempty : call.name ≠ [])
    (letters : ∀ c ∈ call.name, isIdentifierChar c = true) :
    StopsBefore isBlank call.chars ∧ StopsBefore isBlank call.chars.reverse := by
  obtain ⟨d, ds, spelled⟩ := List.exists_cons_of_ne_nil nonempty
  refine ⟨stops_of_letters letters fun c first => ?_, ?_⟩
  · rw [Call.chars, spelled] at first
    cases first
    exact spelled ▸ List.mem_cons_self
  · rw [Call.chars, List.reverse_append]
    exact .cons (by decide) _

/-- A text whose first word no parenthesis follows is no call. -/
theorem call?_eq_none {cs name rest : List Char} (found : identifier? cs = some (name, rest))
    (plain : rest.head? ≠ some '(') : call? cs = none := by
  unfold call?
  rw [found]
  cases rest with
  | nil => rfl
  | cons c rest =>
    have different : c ≠ '(' := by simpa using plain
    split
    · next name' after eq =>
      simp only [Option.some.injEq, Prod.mk.injEq, List.cons.injEq] at eq
      exact absurd eq.2.1 different
    · rfl

end ValueGrammar.Text
