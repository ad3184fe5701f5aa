/-!
Putting a list in order of size. Elements of one size keep their order.
-/
namespace ValueGrammar

variable {α : Type}

def greatestSize (size : α → Nat) (xs : List α) : Nat :=
  xs.foldl (fun greatest x => max greatest (size x)) 0

/-- The elements of size zero, then those of size one, and so on. -/
def bySize (size : α → Nat) (xs : List α) : List α :=
  (List.range (greatestSize size xs + 1)).flatMap fun n => xs.filter (size · == n)

theorem le_foldl_max (size : α → Nat) (xs : List α) (start : Nat) :
    start ≤ xs.foldl (fun greatest x => max greatest (size x)) start := by
  induction xs generalizing start with
  | nil => exact Nat.le_refl start
  | cons y ys ih => exact Nat.le_trans (Nat.le_max_left start (size y)) (ih _)

theorem size_le_greatestSize {size : α → Nat} {xs : List α} {x : α} (member : x ∈ xs) :
    size x ≤ greatestSize size xs := by
  suffices ∀ start, size x ≤ xs.foldl (fun greatest x => max greatest (size x)) start from this 0
  induction xs with
  | nil => cases member
  | cons y ys ih =>
    intro start
    rcases List.mem_cons.1 member with rfl | later
    · exact Nat.le_trans (Nat.le_max_right start (size x)) (le_foldl_max size ys _)
    · exact ih later _

theorem mem_bySize {size : α → Nat} {xs : List α} {x : α} : x ∈ bySize size xs ↔ x ∈ xs := by
  simp only [bySize, List.mem_flatMap, List.mem_range, List.mem_filter, beq_iff_eq]
  constructor
  · intro given
    obtain ⟨-, -, member, -⟩ := given
    exact member
  · intro member
    exact ⟨size x, Nat.lt_succ_of_le (size_le_greatestSize member), member, rfl⟩

end ValueGrammar
