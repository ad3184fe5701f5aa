import Mathlib.Algebra.GroupWithZero.Nat
import Mathlib.Data.Prod.Lex
import Mathlib.Data.List.Lex
import Mathlib.Data.List.Sort
import Mathlib.Data.Nat.BitIndices
import ValueGrammar.Proofs.Piece.Arrangement
import ValueGrammar.Proofs.Piece.Ordering

/-!
The order of arrangements. Orders of positions stand by their number, then by the set of positions
read as a binary number, then lexicographically. Arrangements of a list are those of its positions.
Subsets, orderings and arrangements are each listed once.
-/
namespace ValueGrammar.Arrangement

/-! ### Arrangements by positions -/

section Map

variable {α β : Type} (f : α → β)

theorem picks_map (xs : List α) :
    picks (xs.map f) = (picks xs).map fun pick => (f pick.1, pick.2.map f) := by
  induction xs with
  | nil => rfl
  | cons x rest ih => simp [picks, ih, Function.comp_def]

theorem selections_map (count : Nat) (xs : List α) :
    selections count (xs.map f) = (selections count xs).map (List.map f) := by
  induction count generalizing xs with
  | zero => rfl
  | succ count ih =>
    simp only [selections, picks_map, List.flatMap_map, ih, List.map_flatMap, List.map_map]
    rfl

theorem orderings_map (xs : List α) : orderings (xs.map f) = (orderings xs).map (List.map f) := by
  rw [orderings, orderings, List.length_map, selections_map]

theorem subsets_map (xs : List α) : subsets (xs.map f) = (subsets xs).map (List.map f) := by
  have lengths : (fun ys : List α => (ys.map f).length) = List.length :=
    funext fun ys => List.length_map f
  rw [subsets, subsets, sublists_eq, sublists_eq, List.sublists_map, ← List.map_tail, bySize_map,
    lengths]

theorem arrangements_map (xs : List α) :
    arrangements (xs.map f) = (arrangements xs).map (List.map f) := by
  simp only [arrangements, subsets_map, List.flatMap_map, orderings_map, List.map_flatMap]

end Map

/-! ### Orders of positions -/

/-- Positions read as a binary number. -/
def mask (order : List Nat) : Nat :=
  (order.map (2 ^ ·)).sum

/-- The rank of an order of positions: the number of positions, the set of them as a binary number,
and the order itself. -/
def rank (order : List Nat) : Nat ×ₗ Nat ×ₗ List Nat :=
  toLex (order.length, toLex (mask order, order))

theorem rank_lt_rank {order order' : List Nat} :
    rank order < rank order' ↔ order.length < order'.length ∨ order.length = order'.length ∧
      (mask order < mask order' ∨ mask order = mask order' ∧ order < order') := by
  simp only [rank, Prod.Lex.toLex_lt_toLex]

theorem mask_perm {order order' : List Nat} (perm : order.Perm order') : mask order = mask order' :=
  (perm.map _).sum_nat

theorem mask_concat (order : List Nat) (position : Nat) :
    mask (order ++ [position]) = mask order + 2 ^ position := by
  simp [mask]

theorem sublists_range_succ (count : Nat) : sublists (List.range (count + 1)) =
    sublists (List.range count) ++ (sublists (List.range count)).map (· ++ [count]) := by
  rw [List.range_succ, sublists_eq, List.sublists_concat, ← sublists_eq]

theorem mask_lt {order : List Nat} {count : Nat} (member : order ∈ sublists (List.range count)) :
    mask order < 2 ^ count := by
  induction count generalizing order with
  | zero =>
    obtain rfl := List.mem_singleton.mp member
    exact Nat.one_pos
  | succ count ih =>
    rw [sublists_range_succ] at member
    rw [Nat.pow_succ]
    rcases List.mem_append.mp member with without | within
    · have := ih without
      omega
    · obtain ⟨rest, ofRest, rfl⟩ := List.mem_map.mp within
      have := ih ofRest
      rw [mask_concat]
      omega

/-- Subsets of the first positions stand in the order of their binary numbers. -/
theorem pairwise_sublists (count : Nat) : (sublists (List.range count)).Pairwise
    fun order order' => mask order < mask order' := by
  induction count with
  | zero => exact List.pairwise_singleton _ _
  | succ count ih =>
    rw [sublists_range_succ, List.pairwise_append, List.pairwise_map]
    refine ⟨ih, ih.imp fun less => ?_, fun order without order' within => ?_⟩
    · rw [mask_concat, mask_concat]
      omega
    · obtain ⟨rest, -, rfl⟩ := List.mem_map.mp within
      have := mask_lt without
      rw [mask_concat]
      omega

theorem map_fst_picks {α : Type} (xs : List α) : (picks xs).map Prod.fst = xs := by
  induction xs with
  | nil => rfl
  | cons x rest ih => simpa [picks, Function.comp_def] using ih

/-- Lists of increasing heads and of tails in lexicographic order stand in lexicographic order. -/
theorem pairwise_flatMap_cons {α : Type} {head : α → Nat} {tails : α → List (List Nat)} {xs : List α}
    (heads : xs.Pairwise fun x y => head x < head y)
    (sorted : ∀ x ∈ xs, (tails x).Pairwise (· < ·)) :
    (xs.flatMap fun x => (tails x).map (head x :: ·)).Pairwise (· < ·) := by
  rw [List.pairwise_flatMap]
  constructor
  · intro x member
    rw [List.pairwise_map]
    exact (sorted x member).imp fun less => List.cons_lt_cons_iff.mpr (Or.inr ⟨rfl, less⟩)
  · refine heads.imp fun less list member list' member' => ?_
    obtain ⟨tail, -, rfl⟩ := List.mem_map.mp member
    obtain ⟨tail', -, rfl⟩ := List.mem_map.mp member'
    exact List.cons_lt_cons_iff.mpr (Or.inl less)

/-- The selections from positions in order stand in lexicographic order. -/
theorem pairwise_selections {positions : List Nat} (sorted : positions.Pairwise (· < ·))
    (count : Nat) : (selections count positions).Pairwise (· < ·) := by
  induction count generalizing positions with
  | zero => exact List.pairwise_singleton _ _
  | succ count ih =>
    rw [selections]
    refine pairwise_flatMap_cons ?_ ?_
    · rw [← List.pairwise_map, map_fst_picks]
      exact sorted
    · rintro ⟨first, rest⟩ picked
      obtain ⟨front, back, rfl, rfl⟩ := mem_picks.mp picked
      exact ih (sorted.sublist ((List.sublist_cons_self first back).append_left front))

theorem pairwise_orderings {positions : List Nat} (sorted : positions.Pairwise (· < ·)) :
    (orderings positions).Pairwise fun order order' => rank order < rank order' := by
  refine (pairwise_selections sorted positions.length).imp_of_mem ?_
  intro order order' member member' less
  have perm := (mem_orderings.mp member).trans (mem_orderings.mp member').symm
  exact rank_lt_rank.mpr (Or.inr ⟨perm.length_eq, Or.inr ⟨mask_perm perm, less⟩⟩)

theorem pairwise_subsets (count : Nat) :
    (subsets (List.range count)).Pairwise fun chosen chosen' => chosen.length < chosen'.length ∨
      chosen.length = chosen'.length ∧ mask chosen < mask chosen' :=
  pairwise_bySize (pairwise_sublists count).tail

/-- The arrangements of the first positions stand by their rank. -/
theorem pairwise_arrangements (count : Nat) :
    (arrangements (List.range count)).Pairwise fun order order' => rank order < rank order' := by
  rw [arrangements, List.pairwise_flatMap]
  constructor
  · intro chosen member
    exact pairwise_orderings (List.pairwise_lt_range.sublist (mem_subsets.mp member).2)
  · refine (pairwise_subsets count).imp fun before order member order' member' => ?_
    have perm := mem_orderings.mp member
    have perm' := mem_orderings.mp member'
    rw [rank_lt_rank, perm.length_eq, perm'.length_eq, mask_perm perm, mask_perm perm']
    exact before.imp_right fun both => ⟨both.1, Or.inl both.2⟩

/-! ### Subsets, orderings and arrangements once each -/

/-- A list has the elements with a property, each of them once. -/
structure Enumerates {α : Type} (xs : List α) (p : α → Prop) : Prop where
  nodup : xs.Nodup
  mem_iff : ∀ x, x ∈ xs ↔ p x

/-- One or more of the first positions, as an increasing list. -/
structure IsSubset (count : Nat) (chosen : List Nat) : Prop where
  nonempty : chosen ≠ []
  increasing : chosen.Pairwise (· < ·)
  below : ∀ position ∈ chosen, position < count

/-- One or more of the first positions, each at most once, one after the other. -/
structure IsArrangement (count : Nat) (order : List Nat) : Prop where
  nonempty : order ≠ []
  distinct : order.Nodup
  below : ∀ position ∈ order, position < count

section

variable {count : Nat} {chosen order indices : List Nat}

theorem isSubset_iff :
    IsSubset count chosen ↔ chosen ≠ [] ∧ chosen.Sublist (List.range count) := by
  constructor
  · intro subset
    have inside : chosen ⊆ List.range count := fun position member =>
      List.mem_range.mpr (subset.below position member)
    have distinct : chosen.Nodup := subset.increasing.imp Nat.ne_of_lt
    exact ⟨subset.nonempty, List.sublist_of_subperm_of_pairwise (distinct.subperm inside)
      subset.increasing List.pairwise_lt_range⟩
  · intro given
    obtain ⟨nonempty, sublist⟩ := given
    exact ⟨nonempty, List.pairwise_lt_range.sublist sublist, fun position member =>
      List.mem_range.mp (sublist.subset member)⟩

theorem isArrangement_iff :
    IsArrangement count order ↔ order ≠ [] ∧ order.Subperm (List.range count) := by
  constructor
  · intro arrangement
    exact ⟨arrangement.nonempty, arrangement.distinct.subperm fun position member =>
      List.mem_range.mpr (arrangement.below position member)⟩
  · intro given
    obtain ⟨nonempty, chosen, perm, sublist⟩ := given
    exact ⟨nonempty, perm.nodup_iff.mp (List.nodup_range.sublist sublist), fun position member =>
      List.mem_range.mp (sublist.subset (perm.symm.subset member))⟩

/-- The binary number of a set of positions has its ones at these positions. -/
theorem testBit_mask (increasing : chosen.Pairwise (· < ·)) (position : Nat) :
    (mask chosen).testBit position = true ↔ position ∈ chosen := by
  rw [← Nat.mem_bitIndices, mask, Nat.bitIndices_sum_map_two_pow increasing.sortedLT]

theorem enumerates_subsets (count : Nat) :
    Enumerates (subsets (List.range count)) (IsSubset count) := by
  constructor
  · refine (pairwise_subsets count).imp ?_
    rintro chosen _ before rfl
    omega
  · intro chosen
    rw [mem_subsets, isSubset_iff]

theorem enumerates_arrangements (count : Nat) :
    Enumerates (arrangements (List.range count)) (IsArrangement count) := by
  constructor
  · refine (pairwise_arrangements count).imp ?_
    rintro order _ before rfl
    exact lt_irrefl _ before
  · intro order
    rw [mem_arrangements, isArrangement_iff]

/-- Distinct indices stand at the places that they are read from. -/
theorem map_idxOf_map_getD (distinct : indices.Nodup)
    (below : ∀ position ∈ order, position < indices.length) :
    (order.map (indices.getD · 0)).map indices.idxOf = order := by
  rw [List.map_map, List.map_congr_left (g := id), List.map_id]
  intro position member
  have inside := below position member
  simp [List.getD_eq_getElem?_getD, inside, distinct.idxOf_getElem]

/-- The orderings of distinct indices stand in the lexicographic order of their positions. -/
theorem pairwise_idxOf_orderings (distinct : indices.Nodup) :
    (orderings indices).Pairwise fun order order' =>
      order.map indices.idxOf < order'.map indices.idxOf := by
  have read : indices = (List.range indices.length).map (indices.getD · 0) := by
    apply List.ext_getElem
    · simp
    · intro place inside _
      simp [inside]
  have below {order : List Nat} (member : order ∈ orderings (List.range indices.length)) :
      ∀ position ∈ order, position < indices.length := fun position inside =>
    List.mem_range.mp ((mem_orderings.mp member).subset inside)
  have sorted : (orderings (List.range indices.length)).Pairwise (· < ·) :=
    pairwise_selections List.pairwise_lt_range _
  rw [congrArg orderings read, orderings_map, List.pairwise_map]
  refine sorted.imp_of_mem fun member member' less => ?_
  rwa [map_idxOf_map_getD distinct (below member), map_idxOf_map_getD distinct (below member')]

theorem enumerates_orderings (distinct : indices.Nodup) :
    Enumerates (orderings indices) (·.Perm indices) := by
  constructor
  · refine (pairwise_idxOf_orderings distinct).imp ?_
    rintro order _ before rfl
    exact lt_irrefl _ before
  · intro order
    exact mem_orderings

end

theorem map_some_eq_map_range {α : Type} (xs : List α) :
    xs.map some = (List.range xs.length).map (xs[·]?) := by
  apply List.ext_getElem
  · simp
  · intro place inside _
    simp

/-- To arrange operands is to arrange their positions and to read the operands there. -/
theorem arrangements_eq_map_range {α : Type} (operands : List α) :
    arrangements operands = (arrangements (List.range operands.length)).map fun order =>
      order.filterMap (operands[·]?) := by
  calc arrangements operands
      = (arrangements (operands.map some)).map (List.filterMap id) := by
        simp [arrangements_map, Function.comp_def, List.filterMap_map]
    _ = ((arrangements (List.range operands.length)).map (List.map (operands[·]?))).map
          (List.filterMap id) := by
        rw [map_some_eq_map_range, arrangements_map]
    _ = (arrangements (List.range operands.length)).map fun order =>
          order.filterMap (operands[·]?) := by
        simp [Function.comp_def, List.filterMap_map]

/-! ### Main result -/

/-- Each non-empty subset of the first positions is listed once, by size and then by its binary number;
each ordering of distinct indices once, in the lexicographic order of positions. The orderings of all
subsets are therefore the arrangements of the positions, each of them once, and operands are arranged at
these positions. -/
theorem arrangements_visited_once (count : Nat) {indices : List Nat} (distinct : indices.Nodup) :
    (Enumerates (subsets (List.range count)) (IsSubset count) ∧
      (∀ chosen ∈ subsets (List.range count), ∀ position,
        (mask chosen).testBit position = true ↔ position ∈ chosen) ∧
      (subsets (List.range count)).Pairwise fun chosen chosen' => chosen.length < chosen'.length ∨
        chosen.length = chosen'.length ∧ mask chosen < mask chosen') ∧
    (Enumerates (orderings indices) (·.Perm indices) ∧
      (orderings indices).Pairwise fun order order' =>
        order.map indices.idxOf < order'.map indices.idxOf) ∧
    Enumerates ((subsets (List.range count)).flatMap orderings) (IsArrangement count) ∧
      ∀ {α : Type} (operands : List α), operands.length = count →
        arrangements operands = ((subsets (List.range count)).flatMap orderings).map fun order =>
          order.filterMap (operands[·]?) := by
  have ofSubsets := enumerates_subsets count
  refine ⟨⟨ofSubsets, ?_, pairwise_subsets count⟩,
    ⟨enumerates_orderings distinct, pairwise_idxOf_orderings distinct⟩,
    enumerates_arrangements count, ?_⟩
  · intro chosen member position
    exact testBit_mask ((ofSubsets.mem_iff chosen).mp member).increasing position
  · rintro α operands rfl
    exact arrangements_eq_map_range operands

theorem arrangements_visited_once_three : [7, 2, 9].Nodup ∧ ["a", "b"].length = 2 ∧
    Enumerates [[0], [1], [0, 1]] (IsSubset 2) ∧
    Enumerates [[7, 2, 9], [7, 9, 2], [2, 7, 9], [2, 9, 7], [9, 7, 2], [9, 2, 7]] (·.Perm [7, 2, 9]) ∧
    arrangements ["a", "b"] = [["a"], ["b"], ["a", "b"], ["b", "a"]] := by
  have distinct : [7, 2, 9].Nodup := by decide
  obtain ⟨⟨ofSubsets, -⟩, ⟨ofOrderings, -⟩, -, operands⟩ := arrangements_visited_once 2 distinct
  exact ⟨distinct, rfl, ofSubsets, ofOrderings, operands ["a", "b"] rfl⟩

end ValueGrammar.Arrangement
