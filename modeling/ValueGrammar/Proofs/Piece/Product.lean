import Mathlib.Data.List.Forall2
import ValueGrammar.Piece.Product

/-!
Products of operands. A product holds rows of one piece for each operand, and unless it has been
cut off it holds all of them.
-/
namespace ValueGrammar

namespace Piece

/-- Pieces in a row, with a joiner between those that are not empty. -/
def joined (joiner : Option Separator) (pieces : List Piece) : Piece :=
  match joiner with
  | none => pieces.flatten
  | some s => [.separator s].intercalate (pieces.filter fun piece => !piece.isEmpty)

theorem joined_singleton (joiner : Option Separator) (piece : Piece) :
    joined joiner [piece] = piece := by
  cases joiner with
  | none => simp [joined]
  | some s => cases piece <;> simp [joined, List.intercalate]

theorem joined_cons_nil (joiner : Option Separator) (pieces : List Piece) :
    joined joiner ([] :: pieces) = joined joiner pieces := by
  cases joiner <;> simp [joined]

/-- Two pieces of a row may be put together first. -/
theorem joined_append (joiner : Option Separator) (first second : Piece) (pieces : List Piece) :
    joined joiner (append joiner first second :: pieces) =
      joined joiner (first :: second :: pieces) := by
  cases joiner with
  | none => simp only [joined, append, List.flatten_cons, List.append_assoc]
  | some s =>
    cases first with
    | nil => simp [joined, append]
    | cons a as =>
      cases second with
      | nil => simp [joined, append]
      | cons b bs =>
        simp only [joined, append, List.isEmpty_cons, Bool.or_false, Bool.false_eq_true, if_false,
          List.cons_append, Bool.not_false, List.filter_cons_of_pos]
        cases pieces.filter fun piece => !piece.isEmpty <;> simp [List.intercalate]

theorem foldl_append (joiner : Option Separator) (front : Piece) (pieces : List Piece) :
    pieces.foldl (append joiner) front = joined joiner (front :: pieces) := by
  induction pieces generalizing front with
  | nil => exact (joined_singleton joiner front).symm
  | cons piece pieces ih => rw [List.foldl_cons, ih, joined_append]

/-- What putting two pieces together preserves holds of a row if it holds of its pieces. -/
theorem joined_induction {motive : Piece → Prop} {joiner : Option Separator} (nil : motive [])
    (step : ∀ first second, motive first → motive second → motive (append joiner first second))
    {pieces : List Piece} (each : ∀ piece ∈ pieces, motive piece) :
    motive (joined joiner pieces) := by
  have fold (rest : List Piece) (later : ∀ piece ∈ rest, motive piece) (front : Piece)
      (begun : motive front) : motive (rest.foldl (append joiner) front) := by
    induction rest generalizing front with
    | nil => exact begun
    | cons piece rest ih =>
      apply ih fun other member => later other (List.mem_cons_of_mem _ member)
      exact step front piece begun (later piece List.mem_cons_self)
  rw [← joined_cons_nil, ← foldl_append]
  exact fold pieces each [] nil

end Piece

namespace Alternatives

/-! ### Filling up -/

/-- What is filled in is the beginning of all rows, and all of them unless it is cut off. -/
theorem fill_pieces (joiner : Option Separator) (operand : List Piece) (room : Nat)
    (fronts : List Piece) :
    (fill joiner operand room fronts).pieces <+:
        fronts.flatMap (fun front => operand.map (Piece.append joiner front)) ∧
      ((fill joiner operand room fronts).truncated = false →
        (fill joiner operand room fronts).pieces =
          fronts.flatMap fun front => operand.map (Piece.append joiner front)) := by
  induction fronts generalizing room with
  | nil => simp [fill]
  | cons front fronts ih =>
    simp only [fill, List.flatMap_cons]
    split
    · obtain ⟨shorter, whole⟩ := ih (room - (operand.map (Piece.append joiner front)).length)
      constructor
      · exact (List.prefix_append_right_inj _).mpr shorter
      · intro uncut
        rw [whole uncut]
    · constructor
      · exact (List.take_prefix _ _).trans (List.prefix_append _ _)
      · intro uncut
        cases uncut

variable {limit : Nat} {joiner : Option Separator} {front : Alternatives} {operand : List Piece}

theorem of_mem_extend {piece : Piece} (member : piece ∈ (extend limit joiner front operand).pieces) :
    ∃ first ∈ front.pieces, ∃ second ∈ operand, piece = Piece.append joiner first second := by
  have inside := (fill_pieces joiner operand limit front.pieces).1.subset member
  obtain ⟨first, ofFront, row⟩ := List.mem_flatMap.mp inside
  obtain ⟨second, ofOperand, eq⟩ := List.mem_map.mp row
  exact ⟨first, ofFront, second, ofOperand, eq.symm⟩

theorem mem_extend (uncut : (extend limit joiner front operand).truncated = false)
    {first second : Piece} (ofFront : first ∈ front.pieces) (ofOperand : second ∈ operand) :
    Piece.append joiner first second ∈ (extend limit joiner front operand).pieces := by
  have filled : (fill joiner operand limit front.pieces).truncated = false := by
    simp only [extend, Bool.or_eq_false_iff] at uncut
    exact uncut.2
  change _ ∈ (fill joiner operand limit front.pieces).pieces
  rw [(fill_pieces joiner operand limit front.pieces).2 filled]
  exact List.mem_flatMap.mpr ⟨first, ofFront, List.mem_map_of_mem ofOperand⟩

/-! ### Products -/

theorem truncated_of_foldl {operands : List (List Piece)}
    (uncut : (operands.foldl (extend limit joiner) front).truncated = false) :
    front.truncated = false := by
  induction operands generalizing front with
  | nil => exact uncut
  | cons operand operands ih =>
    have := ih uncut
    simp only [extend, Bool.or_eq_false_iff] at this
    exact this.1

theorem of_mem_foldl {operands : List (List Piece)} {piece : Piece}
    (member : piece ∈ (operands.foldl (extend limit joiner) front).pieces) :
    ∃ first ∈ front.pieces, ∃ row, List.Forall₂ (· ∈ ·) row operands ∧
      piece = Piece.joined joiner (first :: row) := by
  induction operands generalizing front with
  | nil => exact ⟨piece, member, [], .nil, (Piece.joined_singleton joiner piece).symm⟩
  | cons operand operands ih =>
    obtain ⟨begin, ofExtended, row, chosen, rfl⟩ := ih member
    obtain ⟨first, ofFront, second, ofOperand, rfl⟩ := of_mem_extend ofExtended
    exact ⟨first, ofFront, second :: row, .cons ofOperand chosen, Piece.joined_append ..⟩

theorem mem_foldl {operands : List (List Piece)}
    (uncut : (operands.foldl (extend limit joiner) front).truncated = false) {first : Piece}
    (ofFront : first ∈ front.pieces) {row : List Piece} (chosen : List.Forall₂ (· ∈ ·) row operands) :
    Piece.joined joiner (first :: row) ∈ (operands.foldl (extend limit joiner) front).pieces := by
  induction chosen generalizing front first with
  | nil =>
    rw [Piece.joined_singleton]
    exact ofFront
  | cons ofOperand _ ih =>
    rw [← Piece.joined_append]
    exact ih uncut (mem_extend (truncated_of_foldl uncut) ofFront ofOperand)

/-- A piece of a product is a row of one piece for each operand. -/
theorem of_mem_product {operands : List (List Piece)} {piece : Piece}
    (member : piece ∈ (product limit joiner operands).pieces) :
    ∃ row, List.Forall₂ (· ∈ ·) row operands ∧ piece = Piece.joined joiner row := by
  obtain ⟨first, empty, row, chosen, rfl⟩ := of_mem_foldl member
  rw [List.mem_singleton.mp empty, Piece.joined_cons_nil]
  exact ⟨row, chosen, rfl⟩

/-- A product that is not cut off holds all rows. -/
theorem mem_product {operands : List (List Piece)}
    (uncut : (product limit joiner operands).truncated = false) {row : List Piece}
    (chosen : List.Forall₂ (· ∈ ·) row operands) :
    Piece.joined joiner row ∈ (product limit joiner operands).pieces := by
  rw [← Piece.joined_cons_nil]
  exact mem_foldl uncut List.mem_cons_self chosen

end Alternatives

end ValueGrammar
