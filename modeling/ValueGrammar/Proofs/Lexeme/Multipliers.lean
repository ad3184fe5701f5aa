import ValueGrammar.Proofs.Lexeme.Concatenation

/-!
How multipliers are written and read back. The counts in braces are below a limit, so that digits
and counts determine each other.
-/
namespace ValueGrammar

open Unicode Text

namespace Multiplier

/-- A multiplier that is written as counts between braces alone. -/
def IsPlainBraces (m : Multiplier) : Prop :=
  m.comma = false ∧ m.text = m.braces

instance (m : Multiplier) : Decidable m.IsPlainBraces :=
  inferInstanceAs (Decidable (_ ∧ _))

/-- What stands between the least count and the closing brace. -/
def greatestChars (m : Multiplier) : List Char :=
  match m.max? with
  | none => [',']
  | some max => if max = m.min then [] else ',' :: Nat.toDigits 10 max

theorem toList_braces (m : Multiplier) :
    m.braces.toList = '\x7b' :: (Nat.toDigits 10 m.min ++ (m.greatestChars ++ ['\x7d'])) := by
  unfold braces greatestChars
  cases m.max? with
  | none => simp
  | some max =>
    by_cases same : max = m.min
    · simp [same]
    · simp [same]

/-- A multiplier is a sign, or it is written with braces. -/
theorem text_cases (m : Multiplier) :
    m = optional ∨ m = zeroOrMore ∨ m = oneOrMore ∨ m = commaList ∨
      (m.comma = true ∧ m.text = "#" ++ m.braces) ∨ m.IsPlainBraces := by
  by_cases optional : m = .optional
  · exact Or.inl optional
  by_cases zeroOrMore : m = .zeroOrMore
  · exact Or.inr (Or.inl zeroOrMore)
  by_cases oneOrMore : m = .oneOrMore
  · exact Or.inr (Or.inr (Or.inl oneOrMore))
  by_cases commaList : m = .commaList
  · exact Or.inr (Or.inr (Or.inr (Or.inl commaList)))
  cases comma : m.comma with
  | true => simp [text, IsPlainBraces, optional, zeroOrMore, oneOrMore, commaList, comma]
  | false => simp [text, IsPlainBraces, optional, zeroOrMore, oneOrMore, commaList, comma]

end Multiplier

namespace Lexeme

/-! ### Multipliers that are written -/

structure IsCountable (m : Multiplier) : Prop where
  min : m.min < countLimit
  max : ∀ count ∈ m.max?, count < countLimit

theorem readCount?_toDigits {count : Nat} (small : count < countLimit) {rest : List Char}
    (stop : StopsBefore Char.isDigit rest) :
    readCount? (Nat.toDigits 10 count ++ rest) = some (count, rest) := by
  have digits : ∀ d ∈ Nat.toDigits 10 count, d.isDigit = true := fun d member =>
    Nat.isDigit_of_mem_toDigits (by decide) (by decide) member
  unfold readCount?
  rw [takeWhile_append_stop digits stop, dropWhile_append_stop digits stop]
  split
  · next none => exact absurd none (by simp)
  · rw [Nat.ofDigitChars_ten_toDigits]
    exact if_pos small

variable {m : Multiplier}

/-- The greatest count is read back, and what stands for it does not go on with the least one. -/
theorem readGreatest_greatestChars (countable : IsCountable m) (rest : List Char) :
    readGreatest m.min (m.greatestChars ++ '\x7d' :: rest) = (m.max?, '\x7d' :: rest) ∧
      StopsBefore Char.isDigit (m.greatestChars ++ '\x7d' :: rest) := by
  have closing : StopsBefore Char.isDigit ('\x7d' :: rest) := .cons (by decide) rest
  unfold Multiplier.greatestChars
  cases greatest : m.max? with
  | none =>
    refine ⟨?_, .cons (by decide) _⟩
    simp only [List.cons_append, List.nil_append, readGreatest]
    rw [readCount?_eq_none (by decide)]
  | some max =>
    by_cases same : max = m.min
    · simp only [same, if_true, List.nil_append]
      exact ⟨rfl, closing⟩
    · simp only [same, if_false, List.cons_append, readGreatest]
      rw [readCount?_toDigits (countable.max max greatest) closing]
      exact ⟨rfl, .cons (by decide) _⟩

theorem readBraces?_braces (countable : IsCountable m) (rest : List Char) :
    readBraces? (m.braces.toList ++ rest) = some ((m.min, m.max?), rest) := by
  obtain ⟨greatest, stop⟩ := readGreatest_greatestChars countable rest
  rw [Multiplier.toList_braces]
  simp only [List.cons_append, List.append_assoc, List.nil_append, readBraces?]
  rw [readCount?_toDigits countable.min stop]
  simp only [greatest]

/-- A multiplier is read back, unless it is the sign `#` and braces follow it. -/
theorem readMultiplier?_text (countable : IsCountable m) {rest : List Char}
    (unbraced : m = .commaList → rest.head? ≠ some '\x7b') :
    readMultiplier? (m.text.toList ++ rest) = some (m, rest) := by
  have braces := readBraces?_braces countable rest
  rcases m.text_cases with rfl | rfl | rfl | rfl | ⟨comma, text⟩ | ⟨comma, text⟩
  · rfl
  · rfl
  · rfl
  · have none := readBraces?_eq_none (unbraced rfl)
    change readMultiplier? ('#' :: rest) = _
    rw [readMultiplier?, none]
  · obtain ⟨min, max?, _⟩ := m
    cases comma
    rw [text, String.toList_append, List.append_assoc]
    change readMultiplier? ('#' :: (Multiplier.braces _).toList ++ rest) = _
    rw [List.cons_append, readMultiplier?, braces]
  · obtain ⟨min, max?, _⟩ := m
    cases comma
    rw [text]
    rw [Multiplier.toList_braces, List.cons_append] at braces ⊢
    rw [readMultiplier?, braces]
    · rfl
    all_goals simp

theorem exists_head_multiplier (m : Multiplier) :
    ∃ c ∈ multiplierChars, ∃ more, m.text.toList = c :: more := by
  rcases m.text_cases with rfl | rfl | rfl | rfl | ⟨-, text⟩ | ⟨-, text⟩
  · exact ⟨'?', by decide, [], rfl⟩
  · exact ⟨'*', by decide, [], rfl⟩
  · exact ⟨'+', by decide, [], rfl⟩
  · exact ⟨'#', by decide, [], rfl⟩
  · exact ⟨'#', by decide, m.braces.toList, by rw [text, String.toList_append]; rfl⟩
  · exact ⟨'\x7b', by decide, _, by rw [text, Multiplier.toList_braces]⟩

/-- Only plain braces start with a brace. -/
theorem isPlainBraces_of_head (first : m.text.toList.head? = some '\x7b') : m.IsPlainBraces := by
  rcases m.text_cases with rfl | rfl | rfl | rfl | ⟨-, text⟩ | plain
  · cases first
  · cases first
  · cases first
  · cases first
  · rw [text, String.toList_append] at first
    cases first
  · exact plain

/-- Multipliers start with other characters than delimiters, and not with blanks. -/
theorem apart_of_mem_multiplierChars {c : Char} (known : c ∈ multiplierChars) :
    c ∉ delimiterChars ∧ isBlank c = false := by
  simp only [multiplierChars, List.mem_cons, List.not_mem_nil, or_false] at known
  rcases known with rfl | rfl | rfl | rfl | rfl <;> decide

theorem next?_multiplier (countable : IsCountable m) {rest : List Char}
    (unbraced : m = .commaList → rest.head? ≠ some '\x7b') :
    next? (m.text.toList ++ rest) = some (multiplier m, rest) := by
  have read := readMultiplier?_text countable unbraced
  obtain ⟨c, known, more, whole⟩ := exists_head_multiplier m
  rw [whole, List.cons_append] at read ⊢
  rw [next?_of_not_delimiter (apart_of_mem_multiplierChars known).1, read]

/-! ### Multipliers that are read -/

theorem lt_countLimit_of_readCount? {cs : List Char} {count : Nat} {rest : List Char}
    (read : readCount? cs = some (count, rest)) : count < countLimit := by
  unfold readCount? at read
  split at read
  · cases read
  · simp only [Option.ite_none_right_eq_some, Option.some.injEq, Prod.mk.injEq] at read
    exact read.2.1 ▸ read.1

theorem lt_countLimit_of_readGreatest {min : Nat} (small : min < countLimit) (cs : List Char) :
    ∀ count ∈ (readGreatest min cs).1, count < countLimit := by
  intro count member
  unfold readGreatest at member
  split at member
  · split at member
    · next found =>
      cases member
      exact lt_countLimit_of_readCount? found
    · cases member
  · cases member
    exact small

theorem isCountable_of_readBraces? {cs : List Char} {counts : Nat × Option Nat} {rest : List Char}
    (read : readBraces? cs = some (counts, rest)) (comma : Bool) :
    IsCountable ⟨counts.1, counts.2, comma⟩ := by
  unfold readBraces? at read
  split at read
  · split at read
    · next least =>
      have small := lt_countLimit_of_readCount? least
      simp only at read
      split at read
      · cases read
        exact ⟨small, lt_countLimit_of_readGreatest small _⟩
      · cases read
    · cases read
  · cases read

theorem isCountable_of_readMultiplier? {cs : List Char} {rest : List Char}
    (read : readMultiplier? cs = some (m, rest)) : IsCountable m := by
  have sign (m : Multiplier) (known : m ∈ [.optional, .zeroOrMore, .oneOrMore, .commaList]) :
      IsCountable m := by
    simp only [List.mem_cons, List.not_mem_nil, or_false] at known
    rcases known with rfl | rfl | rfl | rfl <;> exact ⟨by decide, by decide⟩
  unfold readMultiplier? at read
  split at read
  · cases read
    exact sign _ (by decide)
  · cases read
    exact sign _ (by decide)
  · cases read
    exact sign _ (by decide)
  · split at read
    · next found =>
      cases read
      exact isCountable_of_readBraces? found true
    · cases read
      exact sign _ (by decide)
  · obtain ⟨counts, found, eq⟩ := Option.map_eq_some_iff.mp read
    cases eq
    exact isCountable_of_readBraces? found false

end Lexeme

end ValueGrammar
