import ValueGrammar.Proofs.Piece.Room

/-!
Products in order. A product lists the rows in lexicographic order of what is chosen from each operand,
as many as there is room for. A row of pieces may be put together part by part, so the product of
products is a product.
-/
namespace ValueGrammar

/-! ### Choices -/

/-- The ways to choose one element of each list, the choice from the last list varying fastest. -/
def choices {α : Type} : List (List α) → List (List α)
  | [] => [[]]
  | xs :: rest => xs.flatMap fun x => (choices rest).map (x :: ·)

section Choices

variable {α β : Type}

theorem choices_singleton (xs : List α) : choices [xs] = xs.map fun x => [x] := by
  exact List.flatMap_pure_eq_map (fun x => [x]) xs

theorem choices_append (front back : List (List α)) :
    choices (front ++ back) = (choices front).flatMap fun xs => (choices back).map (xs ++ ·) := by
  induction front with
  | nil => simp [choices]
  | cons first rest ih =>
    simp only [List.cons_append, choices, ih, List.map_flatMap, List.flatMap_assoc, List.flatMap_map,
      List.map_map]
    rfl

theorem choices_map (f : α → β) (xss : List (List α)) :
    choices (xss.map (List.map f)) = (choices xss).map (List.map f) := by
  induction xss with
  | nil => rfl
  | cons xs rest ih =>
    simp only [List.map_cons, choices, ih, List.flatMap_map, List.map_flatMap, List.map_map]
    rfl

end Choices

/-! ### Rows put together -/

namespace Piece

theorem append_assoc (joiner : Option Separator) (first second third : Piece) :
    append joiner (append joiner first second) third =
      append joiner first (append joiner second third) := by
  cases joiner with
  | none => exact List.append_assoc first second third
  | some s => cases first <;> cases second <;> cases third <;> simp [append]

theorem append_nil (joiner : Option Separator) (piece : Piece) : append joiner piece [] = piece := by
  cases joiner <;> simp [append]

theorem nil_append (joiner : Option Separator) (piece : Piece) : append joiner [] piece = piece := by
  cases joiner <;> simp [append]

theorem joined_cons (joiner : Option Separator) (piece : Piece) (pieces : List Piece) :
    joined joiner (piece :: pieces) = append joiner piece (joined joiner pieces) := by
  induction pieces generalizing piece with
  | nil =>
    rw [joined_singleton, ← joined_cons_nil, joined_singleton, append_nil]
  | cons next pieces ih => rw [← joined_append, ih, ih, append_assoc]

theorem joined_concat (joiner : Option Separator) (front back : List Piece) :
    joined joiner (front ++ back) = append joiner (joined joiner front) (joined joiner back) := by
  induction front with
  | nil =>
    rw [List.nil_append, ← joined_cons_nil joiner [], joined_singleton, nil_append]
  | cons piece front ih => rw [List.cons_append, joined_cons, ih, joined_cons, append_assoc]

/-- Pieces in the middle of a row may be put together first. -/
theorem joined_middle (joiner : Option Separator) (front middle back : List Piece) :
    joined joiner (front ++ joined joiner middle :: back) =
      joined joiner (front ++ middle ++ back) := by
  rw [joined_concat, joined_cons, joined_concat, joined_concat, append_assoc]

/-- The rows of operands of which some in the middle are rows already. -/
theorem map_joined_choices (joiner : Option Separator) (front middle back : List (List Piece)) :
    (choices (front ++ (choices middle).map (joined joiner) :: back)).map (joined joiner) =
      (choices (front ++ middle ++ back)).map (joined joiner) := by
  simp only [choices_append, choices, List.map_flatMap, List.map_map, List.flatMap_assoc,
    List.flatMap_map]
  refine List.flatMap_congr fun first _ => List.flatMap_congr fun middle _ => ?_
  exact List.map_congr_left fun last _ => joined_middle joiner first middle last

end Piece

/-! ### Products as choices -/

namespace Alternatives

variable {limit : Nat} {joiner : Option Separator} {front : Alternatives}
  {operands : List (List Piece)}

/-- All rows that begin with one of some pieces. -/
def rowsBehind (joiner : Option Separator) (fronts : List Piece) (operands : List (List Piece)) :
    List Piece :=
  fronts.flatMap fun front => (choices operands).map fun row => Piece.joined joiner (front :: row)

theorem rowsBehind_cons (joiner : Option Separator) (fronts operand : List Piece)
    (operands : List (List Piece)) :
    rowsBehind joiner fronts (operand :: operands) =
      rowsBehind joiner (fronts.flatMap fun front => operand.map (Piece.append joiner front))
        operands := by
  simp only [rowsBehind, choices, List.map_flatMap, List.flatMap_assoc, List.flatMap_map,
    List.map_map, Function.comp_def, Piece.joined_append]

theorem rowsBehind_nil (joiner : Option Separator) (fronts : List Piece) :
    rowsBehind joiner fronts [] = fronts := by
  simp [rowsBehind, choices, Piece.joined_singleton]

theorem pieces_foldl_extend (uncut : (operands.foldl (extend limit joiner) front).truncated = false) :
    (operands.foldl (extend limit joiner) front).pieces =
      rowsBehind joiner front.pieces operands := by
  induction operands generalizing front with
  | nil => exact (rowsBehind_nil joiner front.pieces).symm
  | cons operand operands ih =>
    rw [List.foldl_cons] at uncut
    have here := truncated_of_foldl uncut
    simp only [extend, Bool.or_eq_false_iff] at here
    rw [List.foldl_cons, ih uncut, rowsBehind_cons]
    exact congrArg (rowsBehind joiner · operands)
      ((fill_pieces joiner operand limit front.pieces).2 here.2)

/-- A product that is not cut off lists the rows of the choices from its operands. -/
theorem pieces_product (uncut : (product limit joiner operands).truncated = false) :
    (product limit joiner operands).pieces = (choices operands).map (Piece.joined joiner) := by
  rw [product, pieces_foldl_extend uncut, rowsBehind, List.flatMap_singleton]
  exact List.map_congr_left fun row _ => Piece.joined_cons_nil joiner row

/-- As many results as there is room for need no more than as many fronts. -/
theorem take_flatMap_take {α β : Type} {f : α → List β} {xs : List α} (solid : ∀ x ∈ xs, f x ≠ [])
    (count : Nat) : ((xs.take count).flatMap f).take count = (xs.flatMap f).take count := by
  have atLeast : ∀ xs : List α, (∀ x ∈ xs, f x ≠ []) → xs.length ≤ (xs.flatMap f).length := by
    intro xs solid
    induction xs with
    | nil => exact Nat.le_refl 0
    | cons x xs ih =>
      have here := List.length_pos_iff.mpr (solid x List.mem_cons_self)
      have later := ih fun y member => solid y (List.mem_cons_of_mem x member)
      rw [List.flatMap_cons, List.length_append, List.length_cons]
      omega
  conv_rhs => rw [← List.take_append_drop count xs, List.flatMap_append, List.take_append]
  by_cases enough : count ≤ xs.length
  · have full := atLeast (xs.take count) fun x member => solid x (List.mem_of_mem_take member)
    rw [List.length_take, Nat.min_eq_left enough] at full
    rw [Nat.sub_eq_zero_of_le full, List.take_zero, List.append_nil]
  · rw [List.drop_eq_nil_of_le (by omega), List.flatMap_nil, List.take_nil, List.append_nil]

theorem pieces_foldl_extend_eq_take (fronts : List Piece) (cut : Bool) :
    (operands.foldl (extend limit joiner) ⟨fronts.take limit, cut⟩).pieces =
      (rowsBehind joiner fronts operands).take limit := by
  induction operands generalizing fronts cut with
  | nil => rw [List.foldl_nil, rowsBehind_nil]
  | cons operand operands ih =>
    -- Fronts beyond the limit matter only if the operand has no pieces; then no row is left at all.
    have next : ((fronts.take limit).flatMap fun front =>
          operand.map (Piece.append joiner front)).take limit =
        (fronts.flatMap fun front => operand.map (Piece.append joiner front)).take limit := by
      by_cases empty : operand = []
      · have none (fronts : List Piece) :
            (fronts.flatMap fun front => operand.map (Piece.append joiner front)) = [] :=
          List.flatMap_eq_nil_iff.mpr fun front _ => List.map_eq_nil_iff.mpr empty
        rw [none, none]
      · exact take_flatMap_take (fun front _ => by simpa using empty) limit
    rw [List.foldl_cons, extend, fill_eq_take, next, ih, rowsBehind_cons]

/-- A product lists as many rows as there is room for. -/
theorem pieces_product_eq_take (room : 1 ≤ limit) (joiner : Option Separator)
    (operands : List (List Piece)) : (product limit joiner operands).pieces =
      ((choices operands).map (Piece.joined joiner)).take limit := by
  have begun : [[]] = ([[]] : List Piece).take limit := (List.take_of_length_le room).symm
  rw [product, begun, pieces_foldl_extend_eq_take, rowsBehind, List.flatMap_singleton]
  refine congrArg (List.take limit) (List.map_congr_left fun row _ => ?_)
  exact Piece.joined_cons_nil joiner row

end Alternatives

end ValueGrammar
