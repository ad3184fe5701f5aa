import ValueGrammar.Proofs.Piece.Origins

/-!
The first rows of a product. A row of a product is a position in each operand, and all rows stand in
the lexicographic order of their positions. Under a limit a product holds the first of them. It is
cut behind every operand, but as no operand is empty every row that is kept goes on to a row of its
own, so nothing is missed among the first ones, and what is cut off is noted.
-/
namespace ValueGrammar

namespace Alternatives

variable {limit : Nat} {joiner : Option Separator} {operand : List Piece}
  {operands : List (List Piece)}

/-! ### Rows by their positions -/

/-- Positions of a row: one in each operand. -/
def IsRow (operands : List (List Piece)) (row : List Nat) : Prop :=
  List.Forall₂ (fun operand position => position < operand.length) operands row

def chosenAt (operands : List (List Piece)) (row : List Nat) : List Piece :=
  List.zipWith (fun operand position => operand.getD position []) operands row

/-- The piece of a row: the pieces at its positions are put together from the left, with the joiner
between what there is so far and the next piece if neither is empty. -/
def rowAt (joiner : Option Separator) (operands : List (List Piece)) (row : List Nat) : Piece :=
  (chosenAt operands row).foldl (Piece.append joiner) []

def allRows (operands : List (List Piece)) : List (List Nat) :=
  choices (operands.map fun operand => List.range operand.length)

theorem allRows_cons (operand : List Piece) (operands : List (List Piece)) :
    allRows (operand :: operands) = (List.range operand.length).flatMap fun position =>
      (allRows operands).map (position :: ·) :=
  rfl

theorem mem_allRows {row : List Nat} : row ∈ allRows operands ↔ IsRow operands row := by
  induction operands generalizing row with
  | nil => simp [allRows, choices, IsRow]
  | cons operand operands ih =>
    simp only [allRows_cons, List.mem_flatMap, List.mem_range, List.mem_map, ih]
    constructor
    · rintro ⟨position, within, rest, isRow, rfl⟩
      exact .cons within isRow
    · intro isRow
      cases isRow with
      | cons within rest => exact ⟨_, within, _, rest, rfl⟩

theorem pairwise_allRows (operands : List (List Piece)) :
    (allRows operands).Pairwise (· < ·) := by
  induction operands with
  | nil => exact List.pairwise_singleton _ _
  | cons operand operands ih =>
    exact Arrangement.pairwise_flatMap_cons List.pairwise_lt_range fun _ _ => ih

theorem length_allRows (operands : List (List Piece)) :
    (allRows operands).length = (operands.map List.length).prod := by
  induction operands with
  | nil => rfl
  | cons operand operands ih => simp [allRows_cons, List.length_flatMap, ih]

/-- The pieces chosen from the operands are those at the positions of the rows. -/
theorem choices_eq_map_allRows (operands : List (List Piece)) :
    choices operands = (allRows operands).map (chosenAt operands) := by
  induction operands with
  | nil => rfl
  | cons operand operands ih =>
    rw [allRows_cons, choices, ih, List.map_flatMap]
    conv_lhs => rw [← Origin.map_getD_range operand []]
    simp only [List.flatMap_map, List.map_map]
    rfl

theorem joined_chosenAt (joiner : Option Separator) (operands : List (List Piece)) (row : List Nat) :
    Piece.joined joiner (chosenAt operands row) = rowAt joiner operands row := by
  rw [rowAt, Piece.foldl_append, Piece.joined_cons_nil]

/-! ### What a limit cuts off -/

theorem length_rows (joiner : Option Separator) (fronts operand : List Piece) :
    (fronts.flatMap fun front => operand.map (Piece.append joiner front)).length =
      fronts.length * operand.length := by
  simp [List.length_flatMap]

/-- One more operand: if the rows so far are the first ones and it is noted whether there are more,
the same is true of the rows that go on with the operand. -/
theorem extend_first_rows (solid : operand ≠ []) (fronts : List Piece) :
    extend limit joiner ⟨fronts.take limit, decide (limit < fronts.length)⟩ operand =
      ⟨(fronts.flatMap fun front => operand.map (Piece.append joiner front)).take limit,
        decide (limit < (fronts.flatMap fun front =>
          operand.map (Piece.append joiner front)).length)⟩ := by
  have first := take_flatMap_take (f := fun front => operand.map (Piece.append joiner front))
    (fun (front : Piece) (_ : front ∈ fronts) => by simpa using solid) limit
  have width : 0 < operand.length := List.length_pos_iff.mpr solid
  have wider : fronts.length ≤ fronts.length * operand.length := Nat.le_mul_of_pos_right _ width
  have noted : (decide (limit < fronts.length) ||
      decide (limit < min limit fronts.length * operand.length)) =
        decide (limit < fronts.length * operand.length) := by
    rw [← Bool.decide_or, decide_eq_decide]
    rcases Nat.lt_or_ge limit fronts.length with cut | whole
    · exact ⟨fun _ => Nat.lt_of_lt_of_le cut wider, fun _ => Or.inl cut⟩
    · rw [Nat.min_eq_right whole, or_iff_right (Nat.not_lt.mpr whole)]
  rw [extend, fill_eq_take, first, length_rows, length_rows, List.length_take, noted]

/-- The rows of a product are the first ones behind every operand, and so at the end. -/
theorem foldl_extend_first_rows (solid : ∀ operand ∈ operands, operand ≠ []) (fronts : List Piece) :
    operands.foldl (extend limit joiner) ⟨fronts.take limit, decide (limit < fronts.length)⟩ =
      ⟨(rowsBehind joiner fronts operands).take limit,
        decide (limit < (rowsBehind joiner fronts operands).length)⟩ := by
  induction operands generalizing fronts with
  | nil => rw [List.foldl_nil, rowsBehind_nil]
  | cons operand operands ih =>
    obtain ⟨here, later⟩ := List.forall_mem_cons.mp solid
    rw [List.foldl_cons, extend_first_rows here, ih later, rowsBehind_cons]

/-! ### Main result -/

/-- All rows of operands that are not empty stand in the lexicographic order of their positions; a
product holds the first of them, as many as the limit allows, and notes whether there are more. -/
theorem product_first_rows (room : 1 ≤ limit) (joiner : Option Separator)
    (solid : ∀ operand ∈ operands, operand ≠ []) :
    ∃ rows : List (List Nat),
      rows.Pairwise (· < ·) ∧ (∀ row, row ∈ rows ↔ IsRow operands row) ∧
      rows.length = (operands.map List.length).prod ∧
      (product limit joiner operands).pieces = (rows.take limit).map (rowAt joiner operands) ∧
      ((product limit joiner operands).truncated = true ↔ limit < rows.length) := by
  have begun : (⟨[[]], false⟩ : Alternatives) =
      ⟨([[]] : List Piece).take limit, decide (limit < ([[]] : List Piece).length)⟩ := by
    have one : ([[]] : List Piece).length ≤ limit := room
    rw [List.take_of_length_le one, decide_eq_false (Nat.not_lt.mpr one)]
  have all : rowsBehind joiner [[]] operands =
      (allRows operands).map (rowAt joiner operands) := by
    rw [rowsBehind, List.flatMap_singleton, choices_eq_map_allRows, List.map_map]
    refine List.map_congr_left fun row _ => ?_
    rw [Function.comp_apply, Piece.joined_cons_nil, joined_chosenAt]
  have found : product limit joiner operands = ⟨((allRows operands).take limit).map
      (rowAt joiner operands), decide (limit < (allRows operands).length)⟩ := by
    rw [product, begun, foldl_extend_first_rows solid, all, List.map_take, List.length_map]
  refine ⟨allRows operands, pairwise_allRows operands, fun row => mem_allRows,
    length_allRows operands, ?_, ?_⟩
  · rw [found]
  · rw [found, decide_eq_true_eq]

/-- Five of the eight rows of three operands of two pieces each, one of which is empty: the comma
stands between pieces that are there. -/
theorem product_first_rows_five :
    (∀ operand ∈ List.replicate 3 [[], [Atom.token "a"]], operand ≠ []) ∧
      ∃ rows : List (List Nat), rows.Pairwise (· < ·) ∧
        (∀ row, row ∈ rows ↔ IsRow (List.replicate 3 [[], [.token "a"]]) row) ∧ rows.length = 8 ∧
        (product 5 (some .comma) (List.replicate 3 [[], [.token "a"]])).pieces =
          (rows.take 5).map (rowAt (some .comma) (List.replicate 3 [[], [.token "a"]])) ∧
        (product 5 (some .comma) (List.replicate 3 [[], [.token "a"]])).truncated = true := by
  have solid : ∀ operand ∈ List.replicate 3 [[], [Atom.token "a"]], operand ≠ [] := by decide
  obtain ⟨rows, sorted, complete, count, first, noted⟩ :=
    product_first_rows (show 1 ≤ 5 by decide) (some .comma) solid
  have eight : rows.length = 8 := count
  exact ⟨solid, rows, sorted, complete, eight, first, noted.mpr (by omega)⟩

end Alternatives

end ValueGrammar
