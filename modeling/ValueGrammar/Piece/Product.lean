import ValueGrammar.Piece.Basic

/-!
Products: all ways to choose one piece of each operand and put the chosen pieces in a row, the
choice of the last operand varying fastest. Only as many results as the limit allows are built;
the rest of the product is never computed.
-/
namespace ValueGrammar

/-- The pieces that a part of a grammar may stand for, and whether some have been cut off. -/
structure Alternatives where
  pieces : List Piece
  truncated : Bool
  deriving DecidableEq, Repr

namespace Alternatives

/-- At most `room` rows of a product: each front followed by each piece of an operand. The flag
says whether there was one more. -/
def fill (joiner : Option Separator) (operand : List Piece) : Nat → List Piece → Alternatives
  | _, [] => ⟨[], false⟩
  | room, front :: fronts =>
    let row := operand.map (Piece.append joiner front)
    if row.length ≤ room then
      let more := fill joiner operand (room - row.length) fronts
      ⟨row ++ more.pieces, more.truncated⟩
    else ⟨row.take room, true⟩

def extend (limit : Nat) (joiner : Option Separator) (front : Alternatives)
    (operand : List Piece) : Alternatives :=
  let filled := fill joiner operand limit front.pieces
  ⟨filled.pieces, front.truncated || filled.truncated⟩

/-- The product of operands, cut off at the limit behind every operand. -/
def product (limit : Nat) (joiner : Option Separator) (operands : List (List Piece)) :
    Alternatives :=
  operands.foldl (extend limit joiner) ⟨[[]], false⟩

end Alternatives

end ValueGrammar
