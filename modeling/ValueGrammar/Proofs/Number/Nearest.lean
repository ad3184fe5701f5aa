import ValueGrammar.Proofs.Number.RoundTrip
import ValueGrammar.Range
import ValueGrammar.Slot.Form

/-!
The number of a range that is nearest to zero. Every default of a numeric token is zero with a
unit, so this is the number that a default is pulled to.
-/
namespace ValueGrammar

namespace Number

/-! ### The order of numbers -/

theorem le_refl (x : Number) : x ≤ x := by
  cases x with
  | negInf => rfl
  | posInf => rfl
  | finite negative magnitude => exact decide_eq_true (Int.le_refl _)

theorem le_trans {x y z : Number} (first : x ≤ y) (second : y ≤ z) : x ≤ z := by
  change x.le y = true at first
  change y.le z = true at second
  change x.le z = true
  cases x with
  | negInf => cases z <;> rfl
  | posInf =>
    cases y with
    | posInf => exact second
    | negInf => cases first
    | finite => cases first
  | finite n m =>
    cases z with
    | posInf => rfl
    | negInf =>
      cases y with
      | negInf => cases first
      | posInf => cases second
      | finite => cases second
    | finite n' m' =>
      cases y with
      | negInf => cases first
      | posInf => cases second
      | finite n'' m'' =>
        simp only [le, decide_eq_true_eq] at first second ⊢
        omega

theorem le_total (x y : Number) : x ≤ y ∨ y ≤ x := by
  change x.le y = true ∨ y.le x = true
  cases x with
  | negInf => exact Or.inl rfl
  | posInf => cases y <;> exact Or.inr rfl
  | finite n m =>
    cases y with
    | negInf => exact Or.inr rfl
    | posInf => exact Or.inl rfl
    | finite n' m' =>
      simp only [le, decide_eq_true_eq]
      omega

theorem max_le_iff {x y z : Number} : x.max y ≤ z ↔ x ≤ z ∧ y ≤ z := by
  unfold Number.max
  split
  · next ordered => exact ⟨fun above => ⟨le_trans ordered above, above⟩, fun both => both.2⟩
  · next unordered =>
    have ordered := (le_total x y).resolve_left unordered
    exact ⟨fun above => ⟨above, le_trans ordered above⟩, fun both => both.1⟩

theorem le_min_iff {x y z : Number} : z ≤ x.min y ↔ z ≤ x ∧ z ≤ y := by
  unfold Number.min
  split
  · next ordered => exact ⟨fun below => ⟨below, le_trans below ordered⟩, fun both => both.1⟩
  · next unordered =>
    have ordered := (le_total x y).resolve_left unordered
    exact ⟨fun below => ⟨le_trans below ordered, below⟩, fun both => both.2⟩

theorem representable_zero : Representable 0 := by
  decide +kernel

def zero : Number := .finite false ⟨0, representable_zero⟩

theorem text_zero : zero.text = "0" := by
  decide +kernel

end Number

namespace Range

/-- The number of a range that is nearest to zero. -/
def nearest (range : Range) : Number :=
  Number.clamp range.min range.max Number.zero

theorem contains_iff {range : Range} {x : Number} :
    range.contains x = true ↔ range.min ≤ x ∧ x ≤ range.max := by
  simp [contains]

theorem contains_nearest {range : Range} (ordered : range.min ≤ range.max) :
    range.contains range.nearest = true := by
  rw [contains_iff]
  unfold nearest Number.clamp
  split
  · next low =>
    split
    · next high => exact ⟨low, high⟩
    · exact ⟨ordered, Number.le_refl _⟩
  · exact ⟨Number.le_refl _, ordered⟩

theorem nearest_of_contains {range : Range} (inside : range.contains Number.zero = true) :
    range.nearest = Number.zero := by
  obtain ⟨low, high⟩ := contains_iff.mp inside
  rw [nearest, Number.clamp, if_pos low, if_pos high]

theorem ordered_of_contains {range : Range} {x : Number} (inside : range.contains x = true) :
    range.min ≤ range.max := by
  obtain ⟨low, high⟩ := contains_iff.mp inside
  exact Number.le_trans low high

/-- The overlap of two ranges holds the numbers that lie in both. -/
theorem contains_intersect {a b : Range} {x : Number} :
    (a.intersect b).contains x = true ↔ a.contains x = true ∧ b.contains x = true := by
  rw [contains_iff, contains_iff, contains_iff, intersect, Number.max_le_iff, Number.le_min_iff]
  exact and_and_and_comm

/-- The overlap of all ranges holds the numbers that lie in each of them. -/
theorem contains_foldl {ranges : List Range} {range : Range} {x : Number} :
    (ranges.foldl intersect range).contains x = true ↔
      range.contains x = true ∧ ∀ r ∈ ranges, r.contains x = true := by
  induction ranges generalizing range with
  | nil => simp
  | cons r ranges ih => rw [List.foldl_cons, ih, contains_intersect, and_assoc, List.forall_mem_cons]

/-- A literal without a number is left as it is. -/
theorem fit_of_no_number {literal : String} (none : Number.read? literal.toList = none)
    (range : Range) : range.fit literal = literal := by
  rw [fit, none]

/-- A literal whose number lies in the range is left as it is. -/
theorem fit_of_contains {literal : String} {x : Number} {unit : List Char} {range : Range}
    (read : Number.read? literal.toList = some (x, unit)) (inside : range.contains x = true) :
    range.fit literal = literal := by
  rw [fit, read]
  dsimp only
  rw [if_neg fun moved => moved.2.1 inside]

/-- Zero with a unit becomes the nearest number of the range with that unit. -/
theorem fit_zero {unit : List Char} {range : Range}
    (read : Number.read? ("0" ++ String.ofList unit).toList = some (Number.zero, unit))
    (ordered : range.min ≤ range.max) (finite : range.nearest.isFinite = true) :
    range.fit ("0" ++ String.ofList unit) = range.nearest.text ++ String.ofList unit := by
  by_cases inside : range.contains Number.zero = true
  · rw [fit_of_contains read inside, nearest_of_contains inside, Number.text_zero]
  · rw [fit, read]
    dsimp only
    rw [if_pos ⟨ordered, inside, finite⟩]
    rfl

end Range

end ValueGrammar
