import ValueGrammar.Piece.Basic
import ValueGrammar.Reference

/-!
Variants: the concrete readings of a grammar. A variant is a row of places, each for one fragment
of a value, with the separators between them.
-/
namespace ValueGrammar

/-- A place of a variant: its token as written, the key of the token, and the range in force. -/
structure Place where
  token : String
  key : String
  range? : Option Range
  deriving DecidableEq, Repr

def Place.ofToken (token : String) : Except Error Place :=
  (Reference.parse token).map fun reference => ⟨token, reference.key, reference.range?⟩

/-- One concrete reading of a grammar. -/
structure Variant where
  places : List Place
  separators : List Separator
  deriving DecidableEq, Repr

namespace Variant

def length (variant : Variant) : Nat :=
  variant.places.length

/-- The variant as it is written, ranges included. -/
def text (variant : Variant) : String :=
  Separator.join (variant.places.map (·.token)) variant.separators

/-- The variant with the keys of its tokens. -/
def keyText (variant : Variant) : String :=
  Separator.join (variant.places.map (·.key)) variant.separators

/-- A text that stands for itself. -/
def verbatim (text : String) : Variant :=
  ⟨[⟨text, text, none⟩], []⟩

/-- The variant of a piece; a piece without tokens has none. -/
def ofPiece? (piece : Piece) : Except Error (Option Variant) :=
  let parts := piece.normalize
  if parts.1.isEmpty then .ok none
  else (parts.1.mapM Place.ofToken).map fun places => some ⟨places, parts.2⟩

def ofPieces : List Piece → Except Error (List Variant)
  | [] => .ok []
  | piece :: pieces => do
    let first ← ofPiece? piece
    let others ← ofPieces pieces
    return first.toList ++ others

end Variant

end ValueGrammar
