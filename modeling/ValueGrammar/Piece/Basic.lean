import ValueGrammar.Separator

/-!
Pieces: runs of tokens and explicit separators, the intermediate form between a combinator tree
and its variants. Adjacent tokens without an explicit separator are separated by a space.
-/
namespace ValueGrammar

inductive Atom where
  | token (text : String)
  | separator (separator : Separator)
  deriving DecidableEq, Repr

abbrev Piece := List Atom

namespace Piece

def isSeparator : Atom → Bool
  | .token _ => false
  | .separator _ => true

/-- The tokens behind a first one, each with the separator before it. Of several explicit
separators between two tokens the first one counts; `pending` is the one met so far. -/
def steps (pending : Option Separator) : Piece → List (Separator × String)
  | [] => []
  | .token text :: rest => (pending.getD .space, text) :: steps none rest
  | .separator s :: rest => steps (pending.or (some s)) rest

/-- The tokens of a piece and the separators between them. Separators before the first token and
behind the last one are dropped. -/
def normalize (piece : Piece) : List String × List Separator :=
  match piece.dropWhile isSeparator with
  | .token text :: rest =>
    let behind := steps none rest
    (text :: behind.map (·.2), behind.map (·.1))
  | _ => ([], [])

def text (piece : Piece) : String :=
  let parts := piece.normalize
  Separator.join parts.1 parts.2

/-- Two pieces in a row. A joiner is put between them if neither is empty. -/
def append (joiner : Option Separator) (front back : Piece) : Piece :=
  match joiner with
  | some s => if front.isEmpty || back.isEmpty then front ++ back else front ++ .separator s :: back
  | none => front ++ back

end Piece

end ValueGrammar
