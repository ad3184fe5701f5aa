import ValueGrammar.Proofs.Number.RoundTrip
import ValueGrammar.Reference

/-!
The text of a reference is read back as that reference. `Reference.Proper` says which references a
text can be read as; narrowing by further ranges keeps a reference proper.
-/
namespace ValueGrammar

open Unicode Text

theorem mem_digits_of_isDigit {c : Char} (digit : c.isDigit = true) :
    c ∈ ['0', '1', '2', '3', '4', '5', '6', '7', '8', '9'] := by
  have bounds : 48 ≤ c.toNat ∧ c.toNat ≤ 57 := by
    simpa [Char.isDigit, UInt32.le_iff_toNat_le] using digit
  have checked : ∀ n ∈ List.range' 48 10,
      Char.ofNat n ∈ ['0', '1', '2', '3', '4', '5', '6', '7', '8', '9'] := by decide
  have answer := checked c.toNat (List.mem_range'_1.mpr (by omega))
  rwa [Char.ofNat_toNat] at answer

/-! ### Ranges -/

namespace Range

theorem skip_eq_self {cs : List Char} (stop : StopsBefore isPlainBlank cs) : skip cs = cs :=
  dropWhile_eq_self stop

/-- A digit starts no word for infinity. -/
theorem dropInfinity?_digit {c : Char} (digit : c.isDigit = true) (cs : List Char) :
    dropInfinity? (c :: cs) = none := by
  have others : ['0', '1', '2', '3', '4', '5', '6', '7', '8', '9'].all
      (fun d => d != '∞' && d.toLower != 'i') = true := by decide
  have other := List.all_eq_true.mp others c (mem_digits_of_isDigit digit)
  simp only [Bool.and_eq_true, bne_iff_ne] at other
  obtain ⟨sign, letter⟩ := other
  unfold dropInfinity?
  split
  · next eq => exact absurd (List.cons.inj eq).1 sign
  · rw [dropWord?, if_neg letter]

theorem readBound?_text (x : Number) {rest : List Char}
    (stop : StopsBefore Decimal.endsNumber rest) :
    readBound? (x.text.toList ++ rest) = some (x, rest) := by
  cases x with
  | negInf => rfl
  | posInf => rfl
  | finite negative magnitude =>
    have back := Number.read?_text_finite negative magnitude stop
    rw [Number.toList_text_finite] at back ⊢
    obtain ⟨c, cs, whole, digit⟩ := magnitude.shortest.chars_head
    rw [whole] at back ⊢
    cases negative with
    | true =>
      change readBound? ('-' :: c :: (cs ++ rest)) = _
      change Number.read? ('-' :: c :: (cs ++ rest)) = _ at back
      simp only [readBound?, dropInfinity?_digit digit]
      exact back
    | false =>
      change readBound? (c :: (cs ++ rest)) = _
      change Number.read? (c :: (cs ++ rest)) = _ at back
      have notMinus : c ≠ '-' := by
        intro given
        subst given
        exact absurd digit (by decide)
      unfold readBound?
      split
      · next eq => exact absurd (List.cons.inj eq).1 notMinus
      · rw [dropInfinity?_digit digit]
        exact back

/-- No number starts with a blank. -/
theorem text_stops (x : Number) (rest : List Char) :
    StopsBefore isPlainBlank (x.text.toList ++ rest) := by
  cases x with
  | negInf => exact .cons (by decide) _
  | posInf => exact .cons (by decide) _
  | finite negative magnitude =>
    obtain ⟨c, cs, whole, digit⟩ := magnitude.shortest.chars_head
    rw [Number.toList_text_finite, whole]
    cases negative with
    | true => exact .cons (by decide) _
    | false =>
      have plain : ['0', '1', '2', '3', '4', '5', '6', '7', '8', '9'].all
          (fun d => !isPlainBlank d) = true := by decide
      have solid := List.all_eq_true.mp plain c (mem_digits_of_isDigit digit)
      rw [Bool.not_eq_true'] at solid
      exact .cons solid _

theorem toList_text (range : Range) :
    range.text.toList = '[' :: (range.min.text.toList ++ ',' :: (range.max.text.toList ++ [']'])) := by
  simp only [text, String.toList_append, List.append_assoc]
  rfl

/-- The text of a range is read back as that range, whatever follows it. -/
theorem read?_text (range : Range) (rest : List Char) :
    read? (range.text.toList ++ rest) = some (range, rest) := by
  have comma (more : List Char) : StopsBefore Decimal.endsNumber (',' :: more) := .cons (by decide) _
  have closing (more : List Char) : StopsBefore Decimal.endsNumber (']' :: more) := .cons (by decide) _
  have atComma (more : List Char) : skip (',' :: more) = ',' :: more :=
    skip_eq_self (.cons (by decide) _)
  have atClosing (more : List Char) : skip (']' :: more) = ']' :: more :=
    skip_eq_self (.cons (by decide) _)
  rw [toList_text]
  simp only [List.cons_append, List.append_assoc, List.nil_append, read?, readBoundOr]
  rw [skip_eq_self (text_stops range.min _), readBound?_text range.min (comma _)]
  simp only [Option.getD_some, atComma]
  rw [skip_eq_self (text_stops range.max _), readBound?_text range.max (closing _)]
  simp only [Option.getD_some, atClosing]

end Range

/-! ### References -/

namespace Reference

/-- The references that a text can be read as. -/
def Proper : Reference → Prop
  | keyword name => name.toList ≠ [] ∧ ∀ c ∈ name.toList, isIdentifierChar c = true
  | typed name _ => name.toList ≠ [] ∧ ∀ c ∈ name.toList, isNameChar c = true
  | function name arguments =>
    name.toList ≠ [] ∧ (∀ c ∈ name.toList, isIdentifierChar c = true) ∧
      Enclosable Nesting.outside arguments.toList ∧
      trimChars arguments.toList = arguments.toList

theorem readTyped?_eq_some {cs : List Char} {reference : Reference} {rest : List Char}
    (h : readTyped? cs = some (reference, rest)) :
    ∃ name ranges, reference = typed (String.ofList name) ranges ∧ name ≠ [] ∧
      ∀ c ∈ name, isNameChar c = true := by
  unfold readTyped? at h
  split at h
  · next after =>
    simp only at h
    split at h
    · cases h
    · next nonempty =>
      split at h
      · simp only [Option.some.injEq, Prod.mk.injEq] at h
        exact ⟨_, _, h.1.symm, nonempty, fun c member => List.mem_takeWhile_imp member⟩
      · cases h
  · cases h

theorem proper_of_read? {cs : List Char} {reference : Reference} {rest : List Char}
    (h : read? cs = some (reference, rest)) : reference.Proper := by
  unfold read? at h
  split at h
  · next found =>
    cases h
    obtain ⟨name, ranges, rfl, nonempty, letters⟩ := readTyped?_eq_some found
    exact ⟨by simpa using nonempty, by simpa using letters⟩
  · split at h
    · next call rest found =>
      cases h
      obtain ⟨after, word, inside⟩ := call?_eq_some_iff.mp found
      have enclosed := (enclosable_of_enclosed? inside).trimChars
      refine ⟨by simpa using (identifier?_eq_some word).2,
        by simpa using letters_of_identifier? word, ?_, ?_⟩
      · simpa using enclosed
      · simpa using trimChars_trimChars call.arguments
    · obtain ⟨read, word, eq⟩ := Option.map_eq_some_iff.mp h
      cases eq
      exact ⟨by simpa using (identifier?_eq_some word).2,
        by simpa using letters_of_identifier? word⟩

theorem proper_of_parse {raw : String} {reference : Reference}
    (h : parse raw = .ok reference) : reference.Proper := by
  unfold parse at h
  split at h
  · next found =>
    cases h
    exact proper_of_read? found
  · cases h

/-- Further ranges change neither the name nor the arguments of a reference. -/
theorem Proper.narrowedBy {reference : Reference} (proper : reference.Proper)
    (extra : List Range) : (reference.narrowedBy extra).Proper := by
  cases reference <;> exact proper

theorem key_narrowedBy (reference : Reference) (extra : List Range) :
    (reference.narrowedBy extra).key = reference.key := by
  cases reference <;> rfl

theorem isKeyword_narrowedBy (reference : Reference) (extra : List Range) :
    (reference.narrowedBy extra).isKeyword = reference.isKeyword := by
  cases reference <;> rfl

theorem narrowedBy_nil (reference : Reference) : reference.narrowedBy [] = reference := by
  cases reference <;> simp [narrowedBy]

/-! ### The characters of a reference -/

theorem toList_keyword (name : String) : (keyword name).text.toList = name.toList := rfl

def rangeChars (ranges : List Range) : List Char :=
  ranges.flatMap fun range => ' ' :: range.text.toList

theorem toList_typed (name : String) (ranges : List Range) :
    (typed name ranges).text.toList = '<' :: (name.toList ++ (rangeChars ranges ++ ['>'])) := by
  have joined : (String.join (ranges.map fun r => " " ++ r.text)).toList = rangeChars ranges := by
    rw [String.toList_join, List.flatMap_map]
    simp only [String.toList_append]
    rfl
  simp only [text, String.toList_append, joined, List.append_assoc]
  rfl

theorem toList_function (name arguments : String) :
    (function name arguments).text.toList =
      name.toList ++ '(' :: (arguments.toList ++ [')']) := by
  simp only [text, String.toList_append, List.append_assoc]
  rfl

theorem rangeChars_stops (ranges : List Range) (rest : List Char) :
    StopsBefore isNameChar (rangeChars ranges ++ '>' :: rest) := by
  cases ranges with
  | nil => exact .cons (by decide) _
  | cons range ranges => exact .cons (by decide) _

/-- Written ranges are read back, up to the bracket behind them. -/
theorem readRanges_rangeChars (ranges : List Range) (rest : List Char) :
    readRanges (rangeChars ranges ++ '>' :: rest) = (ranges, '>' :: rest) := by
  induction ranges with
  | nil =>
    have stays : Range.skip ('>' :: rest) = '>' :: rest := Range.skip_eq_self (.cons (by decide) _)
    change readRanges ('>' :: rest) = _
    rw [readRanges]
    split
    · rfl
    · next found =>
      rw [stays] at found
      cases found
  | cons range ranges ih =>
    have shape : rangeChars (range :: ranges) ++ '>' :: rest =
        ' ' :: (range.text.toList ++ (rangeChars ranges ++ '>' :: rest)) := by
      simp [rangeChars]
    have found : Range.read? (Range.skip (rangeChars (range :: ranges) ++ '>' :: rest)) =
        some (range, rangeChars ranges ++ '>' :: rest) := by
      have blank : Range.skip (' ' :: (range.text.toList ++ (rangeChars ranges ++ '>' :: rest))) =
          range.text.toList ++ (rangeChars ranges ++ '>' :: rest) := by
        change Range.skip (range.text.toList ++ (rangeChars ranges ++ '>' :: rest)) = _
        rw [Range.toList_text]
        exact Range.skip_eq_self (.cons (by decide) _)
      rw [shape, blank]
      exact Range.read?_text range _
    rw [readRanges]
    split
    · next none =>
      rw [found] at none
      cases none
    · next range' rest' some' =>
      rw [found] at some'
      cases some'
      rw [ih]

theorem isNameChar_not_plain_blank {c : Char} (letter : isNameChar c = true) :
    isPlainBlank c = false := by
  by_contra found
  have blank := isBlank_of_isPlainBlank (by simpa using found : isPlainBlank c = true)
  simp [isNameChar, blank] at letter

theorem readTyped?_text {name : String} {ranges : List Range} (proper : (typed name ranges).Proper)
    (rest : List Char) :
    readTyped? ((typed name ranges).text.toList ++ rest) = some (typed name ranges, rest) := by
  obtain ⟨nonempty, letters⟩ := proper
  have stays : Range.skip (name.toList ++ (rangeChars ranges ++ '>' :: rest)) =
      name.toList ++ (rangeChars ranges ++ '>' :: rest) := by
    apply Range.skip_eq_self
    intro c first
    cases chars : name.toList with
    | nil => exact absurd chars nonempty
    | cons d ds =>
      rw [chars] at first letters
      cases first
      exact isNameChar_not_plain_blank (letters c List.mem_cons_self)
  have stop := rangeChars_stops ranges rest
  have closing : Range.skip ('>' :: rest) = '>' :: rest := Range.skip_eq_self (.cons (by decide) _)
  have shape : (typed name ranges).text.toList ++ rest =
      '<' :: (name.toList ++ (rangeChars ranges ++ '>' :: rest)) := by
    rw [toList_typed]
    simp
  rw [shape]
  simp only [readTyped?, stays, takeWhile_append_stop letters stop,
    dropWhile_append_stop letters stop, readRanges_rangeChars, closing, String.ofList_toList]

/-- Only an opening angle bracket starts a typed reference. -/
theorem readTyped?_eq_none {c : Char} (different : c ≠ '<') (cs : List Char) :
    readTyped? (c :: cs) = none := by
  unfold readTyped?
  split
  · next eq => exact absurd (List.cons.inj eq).1 different
  · rfl

theorem not_angle_of_letter {c : Char} (letter : isIdentifierChar c = true) : c ≠ '<' := by
  intro given
  subst given
  exact absurd letter (by decide +kernel)

/-- A text that starts with a word is no typed reference. -/
theorem readTyped?_of_letters {name : List Char} (nonempty : name ≠ [])
    (letters : ∀ c ∈ name, isIdentifierChar c = true) (more : List Char) :
    readTyped? (name ++ more) = none := by
  obtain ⟨c, cs, rfl⟩ := List.exists_cons_of_ne_nil nonempty
  exact readTyped?_eq_none (not_angle_of_letter (letters c List.mem_cons_self)) _

theorem read?_call (call : Call) (nonempty : call.name ≠ [])
    (letters : ∀ c ∈ call.name, isIdentifierChar c = true)
    (enclosed : Enclosable Nesting.outside call.arguments) :
    read? call.chars = some (ofCall call, []) := by
  have read := call?_append nonempty letters enclosed []
  rw [Call.chars, List.append_assoc, List.cons_append, read?,
    readTyped?_of_letters nonempty letters, read]

theorem read?_text {reference : Reference} (proper : reference.Proper) :
    read? reference.text.toList = some (reference, []) := by
  cases reference with
  | typed name ranges =>
    have back := readTyped?_text proper []
    rw [List.append_nil] at back
    rw [read?, back]
  | keyword name =>
    obtain ⟨nonempty, letters⟩ := proper
    have word := identifier?_append nonempty letters (.nil isIdentifierChar)
    have untyped := readTyped?_of_letters nonempty letters []
    rw [List.append_nil] at word untyped
    rw [toList_keyword, read?, untyped, call?_eq_none word (by simp), word]
    simp
  | function name arguments =>
    obtain ⟨nonempty, letters, enclosed, trimmed⟩ := proper
    have read := read?_call ⟨name.toList, arguments.toList⟩ nonempty letters enclosed
    rw [Call.chars, List.append_assoc, List.cons_append, ← toList_function] at read
    rw [read]
    simp [ofCall, trimmed]

/-- References are written without blanks at their ends. -/
theorem text_stops {reference : Reference} (proper : reference.Proper) :
    StopsBefore isBlank reference.text.toList ∧ StopsBefore isBlank reference.text.toList.reverse := by
  cases reference with
  | keyword name =>
    refine ⟨stops_of_letters proper.2 fun c first => List.mem_of_mem_head? first,
      stops_of_letters proper.2 fun c first => ?_⟩
    exact List.mem_reverse.mp (List.mem_of_mem_head? first)
  | typed name ranges =>
    rw [toList_typed]
    refine ⟨.cons (by decide) _, ?_⟩
    rw [← List.append_assoc, ← List.cons_append, List.reverse_append]
    exact .cons (by decide) _
  | function name arguments =>
    have stops := call_stops ⟨name.toList, arguments.toList⟩ proper.1 proper.2.1
    rw [Call.chars, List.append_assoc, List.cons_append, ← toList_function] at stops
    exact stops

/-- The text of a proper reference is read back as that reference. -/
theorem parse_text {reference : Reference} (proper : reference.Proper) :
    parse reference.text = .ok reference := by
  unfold parse
  rw [trimChars_eq_self (text_stops proper).1 (text_stops proper).2, read?_text proper]

/-- Reading a text and writing the reference narrowed by further ranges loses nothing. -/
theorem parse_text_narrowedBy {raw : String} {reference : Reference}
    (h : parse raw = .ok reference) (extra : List Range) :
    parse (reference.narrowedBy extra).text = .ok (reference.narrowedBy extra) :=
  parse_text ((proper_of_parse h).narrowedBy extra)

end Reference

end ValueGrammar
