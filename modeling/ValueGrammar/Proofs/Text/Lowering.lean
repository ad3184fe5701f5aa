import ValueGrammar.Proofs.Value.Cutting
import ValueGrammar.Unicode.Lowercase

/-!
What lower case leaves alone. Separators, quotes and parentheses are their own small form, so they
are where they were in the small form of a text: inside it, at its start and at its end.
-/
namespace ValueGrammar

namespace Unicode

/-- Characters that are their own small form wherever they stand. -/
def IsCaseless (c : Char) : Prop :=
  c ≠ 'Σ' ∧ lowerChar c = [c]

instance (c : Char) : Decidable (IsCaseless c) :=
  inferInstanceAs (Decidable (_ ∧ _))

theorem lowerAfter_cons {c : Char} (caseless : IsCaseless c) (before cs : List Char) :
    lowerAfter before (c :: cs) = c :: lowerAfter (c :: before) cs := by
  simp [lowerAfter, caseless.1, caseless.2]

theorem exists_lowerAfter_append (before front back : List Char) :
    ∃ image, lowerAfter before (front ++ back) =
      image ++ lowerAfter (front.reverse ++ before) back := by
  induction front generalizing before with
  | nil => exact ⟨[], rfl⟩
  | cons c front ih =>
    obtain ⟨image, lowered⟩ := ih (c :: before)
    rw [List.cons_append, lowerAfter, lowered, List.reverse_cons, List.append_assoc,
      List.singleton_append, ← List.append_assoc]
    exact ⟨_, rfl⟩

/-- A caseless character stays between the small forms of what is around it. -/
theorem exists_lower_around {text : String} {front back : List Char} {c : Char}
    (caseless : IsCaseless c) (spelled : text.toList = front ++ c :: back) :
    ∃ front' before, (lower text).toList = front' ++ c :: lowerAfter before back := by
  obtain ⟨image, lowered⟩ := exists_lowerAfter_append [] front (c :: back)
  rw [lower, String.toList_ofList, spelled, lowered, lowerAfter_cons caseless]
  exact ⟨image, _, rfl⟩

theorem mem_lower {text : String} {c : Char} (caseless : IsCaseless c) (member : c ∈ text.toList) :
    c ∈ (lower text).toList := by
  obtain ⟨front, back, spelled⟩ := List.append_of_mem member
  obtain ⟨front', before, lowered⟩ := exists_lower_around caseless spelled
  simp [lowered]

theorem head?_lower {text : String} {c : Char} (caseless : IsCaseless c)
    (first : c ∈ text.toList.head?) : c ∈ (lower text).toList.head? := by
  obtain ⟨rest, spelled⟩ := List.head?_eq_some_iff.mp first
  rw [lower, String.toList_ofList, spelled, lowerAfter_cons caseless]
  rfl

theorem getLast?_lower {text : String} {c : Char} (caseless : IsCaseless c)
    (last : c ∈ text.toList.getLast?) : c ∈ (lower text).toList.getLast? := by
  obtain ⟨front, spelled⟩ := List.getLast?_eq_some_iff.mp last
  obtain ⟨front', before, lowered⟩ := exists_lower_around caseless spelled
  rw [lowered, lowerAfter, List.getLast?_concat]
  rfl

/-- No capital is blank. -/
theorem blank_capital_disjoint :
    ∀ blank ∈ blankTable, ∀ run ∈ capitalRuns, run.last < blank.1 ∨ blank.2 < run.first := by
  decide +kernel

theorem isCaseless_of_isBlank {c : Char} (blank : isBlank c = true) : IsCaseless c := by
  obtain ⟨interval, inTable, low, high⟩ := Table.contains_iff.mp blank
  have notSigma : c ≠ 'Σ' := by
    intro same
    subst same
    exact absurd blank (by decide)
  refine ⟨notSigma, ?_⟩
  unfold lowerChar
  split
  · next ascii =>
    have small : c.toNat ∈ List.range 0x80 := List.mem_range.mpr ascii
    have checked : ∀ n ∈ List.range 0x80, (∃ i ∈ blankTable, i.1 ≤ n ∧ n ≤ i.2) →
        (Char.ofNat n).toLower = Char.ofNat n := by decide +kernel
    have answer := checked c.toNat small ⟨interval, inTable, low, high⟩
    rw [Char.ofNat_toNat] at answer
    rw [answer]
  · split
    · next dotted =>
      have apart : ∀ i ∈ blankTable, 0x130 < i.1 ∨ i.2 < 0x130 := by decide
      have := apart interval inTable
      omega
    · have none : capitalRuns.find? (·.contains c.toNat) = none := by
        rw [List.find?_eq_none]
        intro run member inside
        have apart := blank_capital_disjoint interval inTable run member
        simp only [CapitalRun.contains, Bool.and_eq_true, decide_eq_true_eq] at inside
        omega
      rw [none]

end Unicode

namespace Fragments

open Unicode

/-- Separators, quotes and parentheses have no case. -/
theorem isCaseless_of_not_plain {c : Char} (strange : isPlain c = false) : IsCaseless c := by
  by_cases blank : isBlank c = true
  · exact isCaseless_of_isBlank blank
  · have listed : c = ',' ∨ c = '/' ∨ c = '"' ∨ c = '\'' ∨ c = '(' ∨ c = ')' := by
      by_contra other
      simp only [not_or] at other
      obtain ⟨comma, slash, double, single, opening, closing⟩ := other
      simp [isPlain, Separator.ofChar?, isQuote, comma, slash, blank, double, single, opening,
        closing] at strange
    rcases listed with rfl | rfl | rfl | rfl | rfl | rfl <;> decide +kernel

theorem isCaseless_of_separator {c : Char} {s : Separator} (found : Separator.ofChar? c = some s) :
    IsCaseless c :=
  isCaseless_of_not_plain (by simp [isPlain, found])

/-- A text with a plain small form is plain. -/
theorem isPlain_of_lower {text : String} (plain : ∀ c ∈ (lower text).toList, isPlain c = true) :
    ∀ c ∈ text.toList, isPlain c = true := by
  intro c member
  by_contra strange
  have caseless := isCaseless_of_not_plain (by simpa using strange)
  exact strange (plain c (mem_lower caseless member))

/-- A text whose small form neither starts nor ends with a separator does neither. -/
theorem solid_ends_of_lower {text : String}
    (solid : ∀ c, c ∈ (lower text).toList.head? ∨ c ∈ (lower text).toList.getLast? →
      Separator.ofChar? c = none) :
    ∀ c, c ∈ text.toList.head? ∨ c ∈ text.toList.getLast? → Separator.ofChar? c = none := by
  intro c atEnd
  by_contra separates
  obtain ⟨s, found⟩ := Option.ne_none_iff_exists'.mp separates
  have caseless := isCaseless_of_separator found
  rcases atEnd with first | last
  · exact separates (solid c (Or.inl (head?_lower caseless first)))
  · exact separates (solid c (Or.inr (getLast?_lower caseless last)))

end Fragments

end ValueGrammar
