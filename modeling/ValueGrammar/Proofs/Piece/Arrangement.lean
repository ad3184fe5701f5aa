import Mathlib.Data.List.Sublists
import ValueGrammar.Piece.Arrangement

/-!
What the arrangements of a list are: `orderings` lists its permutations, and `arrangements` the
permutations of its non-empty sublists.
-/
namespace ValueGrammar.Arrangement

variable {α : Type} {xs ys : List α}

theorem mem_picks {y : α} :
    (y, ys) ∈ picks xs ↔ ∃ front back, xs = front ++ y :: back ∧ ys = front ++ back := by
  induction xs generalizing ys with
  | nil => simp [picks]
  | cons x rest ih =>
    simp only [picks, List.mem_cons, List.mem_map, Prod.mk.injEq]
    constructor
    · rintro (⟨rfl, rfl⟩ | ⟨⟨z, zs⟩, member, rfl, rfl⟩)
      · exact ⟨[], ys, rfl, rfl⟩
      · obtain ⟨front, back, rfl, rfl⟩ := ih.mp member
        exact ⟨x :: front, back, rfl, rfl⟩
    · intro given
      obtain ⟨front, back, eq, rfl⟩ := given
      cases front with
      | nil =>
        cases eq
        exact Or.inl ⟨rfl, rfl⟩
      | cons first front =>
        cases eq
        exact Or.inr ⟨(y, front ++ back), ih.mpr ⟨front, back, rfl, rfl⟩, rfl, rfl⟩

theorem mem_selections {count : Nat} (length : xs.length = count) :
    ys ∈ selections count xs ↔ ys.Perm xs := by
  induction count generalizing xs ys with
  | zero =>
    obtain rfl := List.eq_nil_of_length_eq_zero length
    simp [selections]
  | succ count ih =>
    have shorter {front back : List α} {y : α} (eq : xs = front ++ y :: back) :
        (front ++ back).length = count := by
      rw [eq] at length
      simp only [List.length_append, List.length_cons] at length ⊢
      omega
    simp only [selections, List.mem_flatMap, List.mem_map]
    constructor
    · intro given
      obtain ⟨⟨y, others⟩, picked, zs, member, rfl⟩ := given
      obtain ⟨front, back, eq, rfl⟩ := mem_picks.mp picked
      have perm := (ih (shorter eq)).mp member
      rw [eq]
      exact (perm.cons y).trans List.perm_middle.symm
    · intro perm
      cases ys with
      | nil =>
        have := perm.length_eq
        simp only [List.length_nil] at this
        omega
      | cons y zs =>
        obtain ⟨front, back, eq⟩ := List.append_of_mem (perm.subset List.mem_cons_self)
        have rest : zs.Perm (front ++ back) := by
          rw [eq] at perm
          exact (perm.trans List.perm_middle).cons_inv
        exact ⟨(y, front ++ back), mem_picks.mpr ⟨front, back, eq, rfl⟩, zs,
          (ih (shorter eq)).mpr rest, rfl⟩

theorem mem_orderings : ys ∈ orderings xs ↔ ys.Perm xs :=
  mem_selections rfl

theorem sublists_eq : sublists xs = xs.sublists := by
  induction xs using List.reverseRecOn with
  | nil => rfl
  | append_singleton xs x ih =>
    rw [List.sublists_concat, ← ih]
    simp [sublists]

/-- The empty sublist stands first and nowhere else. -/
theorem sublists_cons (xs : List α) : ∃ others, sublists xs = [] :: others ∧ [] ∉ others := by
  induction xs using List.reverseRecOn with
  | nil => exact ⟨[], rfl, by simp⟩
  | append_singleton xs x ih =>
    obtain ⟨others, eq, absent⟩ := ih
    refine ⟨others ++ (sublists xs).map (· ++ [x]), ?_, ?_⟩
    · rw [sublists_eq, List.sublists_concat, ← sublists_eq, eq]
      rfl
    · simp [absent]

theorem mem_subsets : ys ∈ subsets xs ↔ ys ≠ [] ∧ ys.Sublist xs := by
  obtain ⟨others, eq, absent⟩ := sublists_cons xs
  have all : ys ∈ sublists xs ↔ ys.Sublist xs := by rw [sublists_eq, List.mem_sublists]
  rw [subsets, mem_bySize, eq, List.tail_cons, ← all, eq, List.mem_cons]
  constructor
  · intro member
    refine ⟨?_, Or.inr member⟩
    intro given
    subst given
    exact absent member
  · intro given
    obtain ⟨nonempty, empty | member⟩ := given
    · exact absurd empty nonempty
    · exact member

theorem mem_arrangements : ys ∈ arrangements xs ↔ ys ≠ [] ∧ ys.Subperm xs := by
  simp only [arrangements, List.mem_flatMap, mem_subsets, mem_orderings]
  constructor
  · intro given
    obtain ⟨chosen, ⟨nonempty, sublist⟩, perm⟩ := given
    refine ⟨?_, chosen, perm.symm, sublist⟩
    intro given
    subst given
    exact nonempty perm.symm.eq_nil
  · intro given
    obtain ⟨nonempty, chosen, perm, sublist⟩ := given
    refine ⟨chosen, ⟨?_, sublist⟩, perm.symm⟩
    intro given
    subst given
    exact nonempty perm.symm.eq_nil

end ValueGrammar.Arrangement
