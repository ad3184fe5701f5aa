import ValueGrammar.Proofs.Piece.Origins

/-!
The order in which rows are generated. All rows of a group, by their origins, stand in the order of
their ranks, and gathering keeps the first one of each text, the first ones if there is no room for
all. So the pieces of a group are rows generated first, in order of length and then of rank.
-/
namespace ValueGrammar

/-! ### Orders of operands -/

namespace Combinator

variable {combinator : Combinator} {count : Nat} {order : List Nat}

/-- The orders in which so many operands are put in a row. -/
def orders (count : Nat) : Combinator → List (List Nat)
  | choice => (List.range count).map fun position => [position]
  | someOf => Arrangement.arrangements (List.range count)
  | allOf => Arrangement.orderings (List.range count)
  | _ => [List.range count]

theorem mem_orders :
    order ∈ combinator.orders count ↔ combinator.Chooses (List.range count) order := by
  cases combinator with
  | choice =>
    simp only [orders, Chooses, List.mem_map]
    exact exists_congr fun position => and_congr_right fun _ => eq_comm
  | someOf => exact Arrangement.mem_arrangements
  | allOf => exact Arrangement.mem_orderings
  | _ => exact List.mem_singleton

theorem pairwise_orders (count : Nat) (combinator : Combinator) :
    (combinator.orders count).Pairwise fun order order' =>
      Arrangement.rank order < Arrangement.rank order' := by
  cases combinator with
  | choice =>
    rw [orders, List.pairwise_map]
    refine List.pairwise_lt_range.imp ?_
    intro position position' less
    refine Arrangement.rank_lt_rank.mpr (Or.inr ⟨rfl, Or.inl ?_⟩)
    simpa [Arrangement.mask] using Nat.pow_lt_pow_right (Nat.lt_succ_self 1) less
  | someOf => exact Arrangement.pairwise_arrangements count
  | allOf => exact Arrangement.pairwise_orderings List.pairwise_lt_range
  | _ => exact List.pairwise_singleton _ _

end Combinator

/-! ### Rows in the order in which they are generated -/

theorem mem_take_iff {α : Type} [DecidableEq α] {xs : List α} (distinct : xs.Nodup) {x : α}
    {index : Nat} (found : xs[index]? = some x) (count : Nat) : x ∈ xs.take count ↔ index < count := by
  obtain ⟨within, rfl⟩ := List.getElem?_eq_some_iff.mp found
  rw [List.mem_take_iff_idxOf_lt (List.getElem_mem within), distinct.idxOf_getElem]

namespace Combinator

open Origin (rowsOf)

variable {limits : Limits} {combinator : Combinator} {operands : List (List Piece)} {origin : Origin}

/-- The rows of one order that there is room for. -/
def rowsInOrder (limits : Limits) (combinator : Combinator) (operands : List (List Piece))
    (order : List Nat) : List Origin :=
  if combinator = choice then rowsOf operands order
  else (rowsOf operands order).take limits.variants

/-- The rows of a group that there is room for, one order after the other. -/
def origins (limits : Limits) (combinator : Combinator) (operands : List (List Piece)) :
    List Origin :=
  (combinator.orders operands.length).flatMap (combinator.rowsInOrder limits operands)

theorem pairwise_rowsInOrder (limits : Limits) (combinator : Combinator)
    (operands : List (List Piece)) (order : List Nat) :
    (combinator.rowsInOrder limits operands order).Pairwise
      fun origin origin' => origin.choice < origin'.choice := by
  unfold rowsInOrder
  split
  · exact Origin.pairwise_rowsOf operands order
  · exact (Origin.pairwise_rowsOf operands order).sublist (List.take_sublist _ _)

theorem mem_rowsInOrder {order : List Nat} :
    origin ∈ combinator.rowsInOrder limits operands order ↔ origin ∈ rowsOf operands order ∧
      (combinator ≠ choice → origin.number operands < limits.variants) := by
  unfold rowsInOrder
  split
  · next isChoice => simp [isChoice]
  · next other =>
    have distinct : (rowsOf operands order).Nodup := by
      refine (Origin.pairwise_rowsOf operands order).imp ?_
      rintro origin _ less rfl
      exact lt_irrefl _ less
    constructor
    · intro taken
      have found := Origin.getElem?_rowsOf (List.mem_of_mem_take taken)
      exact ⟨List.mem_of_mem_take taken, fun _ => (mem_take_iff distinct found _).mp taken⟩
    · rintro ⟨member, room⟩
      exact (mem_take_iff distinct (Origin.getElem?_rowsOf member) _).mpr (room other)

theorem mem_origins :
    origin ∈ combinator.origins limits operands ↔ origin.IsGenerated limits combinator operands := by
  simp only [origins, List.mem_flatMap, mem_rowsInOrder, Origin.mem_rowsOf, mem_orders]
  constructor
  · rintro ⟨order, chooses, ⟨rfl, below⟩, room⟩
    exact ⟨chooses, below, room⟩
  · intro generated
    exact ⟨_, generated.ordered, ⟨rfl, generated.chosen⟩, generated.room⟩

/-- Rows are generated in the order of their ranks. -/
theorem pairwise_origins (limits : Limits) (combinator : Combinator) (operands : List (List Piece)) :
    (combinator.origins limits operands).Pairwise fun origin origin' => origin.rank < origin'.rank := by
  have ofOrder {order : List Nat} {origin : Origin}
      (member : origin ∈ combinator.rowsInOrder limits operands order) : origin.order = order :=
    (Origin.mem_rowsOf.mp (mem_rowsInOrder.mp member).1).1
  rw [origins, List.pairwise_flatMap]
  constructor
  · intro order _
    refine (pairwise_rowsInOrder limits combinator operands order).imp_of_mem ?_
    intro origin origin' member member' less
    rw [Origin.rank, Origin.rank, ofOrder member, ofOrder member', Prod.Lex.toLex_lt_toLex]
    exact Or.inr ⟨rfl, less⟩
  · refine (pairwise_orders operands.length combinator).imp ?_
    intro order order' less origin member origin' member'
    rw [Origin.rank, Origin.rank, ofOrder member, ofOrder member', Prod.Lex.toLex_lt_toLex]
    exact Or.inl less

/-! ### The pieces of a group -/

/-- The rows of a choice are the pieces of its operands. -/
theorem map_piece_origins_choice (limits : Limits) (operands : List (List Piece)) :
    (choice.origins limits operands).map (Origin.piece operands) = operands.flatMap id := by
  conv_rhs => rw [← Origin.map_getD_range operands [], List.flatMap_map]
  rw [origins, orders, List.flatMap_map, List.map_flatMap]
  refine List.flatMap_congr fun position _ => ?_
  rw [rowsInOrder, if_pos rfl, Origin.map_piece_rowsOf, List.map_singleton, choices_singleton, List.map_map]
  simp [Function.comp_def, Piece.joined_singleton]

/-- The rows of operands in other orders are those of their products. -/
theorem map_piece_rowsInOrder (room : 1 ≤ limits.variants) (several : combinator ≠ choice)
    (order : List Nat) :
    (combinator.rowsInOrder limits operands order).map (Origin.piece operands) =
      (Alternatives.product limits.variants none
        (order.map fun position => operands.getD position [])).pieces := by
  rw [rowsInOrder, if_neg several, List.map_take, Origin.map_piece_rowsOf,
    Alternatives.pieces_product_eq_take room]

/-- Subsets and sets of operands are gathered from the products of their orders. -/
theorem alternatives_eq_collect (orderless : combinator.IsOrderless) (several : combinator ≠ choice)
    (limits : Limits) (operands : List (List Piece)) :
    combinator.alternatives limits operands =
      (Gathering.empty.collect limits.variants (Alternatives.product limits.variants none)
        ((combinator.orders operands.length).map
          (List.map fun position => operands.getD position []))).byLength := by
  cases combinator with
  | choice => exact absurd rfl several
  | someOf => rw [orders, ← Arrangement.arrangements_map, Origin.map_getD_range, alternatives]
  | allOf => rw [orders, ← Arrangement.orderings_map, Origin.map_getD_range, alternatives]
  | _ => exact absurd orderless (by decide)

/-- Gathering keeps of the rows the first one of each text, those that there is room for. -/
theorem exists_kept (orderless : combinator.IsOrderless) (limits : Limits)
    (operands : List (List Piece)) :
    ∃ kept, kept <+: Piece.distinct []
        ((combinator.origins limits operands).map (Origin.piece operands)) ∧
      (combinator.alternatives limits operands).pieces =
        bySize (fun piece => piece.text.length) kept := by
  by_cases isChoice : combinator = choice
  · subst isChoice
    rw [map_piece_origins_choice]
    exact Gathering.exists_pieces_byLength limits.variants (fun pieces => ⟨pieces, false⟩) operands
  · rw [alternatives_eq_collect orderless isChoice]
    -- Without room the product of no operands still has its empty row, but nothing is kept.
    rcases Nat.eq_zero_or_pos limits.variants with none | room
    · refine ⟨[], List.nil_prefix, List.eq_nil_of_length_eq_zero (Nat.le_zero.mp ?_)⟩
      rw [← none]
      exact ((Gathering.within_empty _).collect _).length_byLength
    · obtain ⟨kept, part, ordered⟩ := Gathering.exists_pieces_byLength limits.variants
        (Alternatives.product limits.variants none) ((combinator.orders operands.length).map
          (List.map fun position => operands.getD position []))
      refine ⟨kept, ?_, ordered⟩
      rw [List.flatMap_map] at part
      rw [origins, List.map_flatMap]
      simp only [map_piece_rowsInOrder room isChoice]
      exact part

/-- The first of the rows of a text has the least rank. -/
theorem isFirst_of_isFirst
    (first : IsFirst (fun other => (Origin.piece operands other).text = (origin.piece operands).text)
      (combinator.origins limits operands) origin) :
    origin.IsFirst limits combinator operands := by
  refine ⟨mem_origins.mp first.mem, fun other generated same => ?_⟩
  obtain ⟨-, before, after, split, none⟩ := first
  have member := mem_origins.mpr generated
  have sorted := pairwise_origins limits combinator operands
  rw [split] at member sorted
  rw [List.pairwise_append, List.pairwise_cons] at sorted
  rcases List.mem_append.mp member with inFront | behind
  · exact absurd same (none other inFront)
  · rcases List.mem_cons.mp behind with rfl | later
    · exact le_rfl
    · exact (sorted.2.1.1 other later).le

/-- The pieces of a group are rows generated first, in order of the length of their texts, and of those
of one length the one generated before stands before. -/
theorem exists_origins (orderless : combinator.IsOrderless) (limits : Limits)
    (operands : List (List Piece)) :
    ∃ origins : List Origin, (combinator.alternatives limits operands).pieces = origins.map (Origin.piece operands) ∧
      (∀ origin ∈ origins, origin.IsFirst limits combinator operands) ∧
      origins.Pairwise fun origin origin' =>
        (origin.piece operands).text.length < (origin'.piece operands).text.length ∨
          (origin.piece operands).text.length = (origin'.piece operands).text.length ∧
            origin.rank < origin'.rank := by
  -- What is kept are the rows at some of the origins, so the order by length is one of origins.
  obtain ⟨kept, part, ordered⟩ := exists_kept orderless limits operands
  obtain ⟨firsts, sublist, same, each⟩ :=
    Piece.exists_distinct_map (Origin.piece operands) (combinator.origins limits operands) []
  rw [same] at part
  obtain ⟨count, rfl⟩ : ∃ count, kept = (firsts.take count).map (Origin.piece operands) := by
    rw [List.prefix_iff_eq_take] at part
    exact ⟨kept.length, part.trans List.map_take.symm⟩
  rw [bySize_map] at ordered
  refine ⟨_, ordered, fun origin member => ?_, ?_⟩
  · exact isFirst_of_isFirst (each origin (List.mem_of_mem_take (mem_bySize.mp member))).2
  · exact pairwise_bySize ((pairwise_origins limits combinator operands).sublist
      ((List.take_sublist _ _).trans sublist))

end Combinator

end ValueGrammar
