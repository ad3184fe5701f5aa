import Std.Data.TreeSet
import ValueGrammar.Piece.BySize
import ValueGrammar.Piece.Product

/-!
Gathering pieces without duplicates. Two pieces are the same when they have the same text. The
first pieces met are kept, up to a limit; the first new piece for which there is no room ends the
gathering, and later batches are not computed any more.
-/
namespace ValueGrammar

/-- The pieces gathered so far, each with its text, the newest first. -/
structure Gathering where
  seen : Std.TreeSet String
  kept : List (String × Piece)
  /-- A new piece had no room. -/
  overflowed : Bool
  /-- A batch had been cut off itself. -/
  cut : Bool

namespace Gathering

def empty : Gathering := ⟨∅, [], false, false⟩

/-- One more piece, unless a piece with its text has been kept. -/
def insert (limit : Nat) (gathering : Gathering) (piece : Piece) : Gathering :=
  let text := piece.text
  if gathering.seen.contains text then gathering
  else if limit ≤ gathering.seen.size then { gathering with overflowed := true }
  else { gathering with
    seen := gathering.seen.insert text
    kept := (text, piece) :: gathering.kept }

/-- The pieces of a batch in order, until one has no room. -/
def insertAll (limit : Nat) (gathering : Gathering) : List Piece → Gathering
  | [] => gathering
  | piece :: rest =>
    let next := gathering.insert limit piece
    if next.overflowed then next else next.insertAll limit rest

/-- One more batch; it is noted if the batch had been cut off itself. -/
def absorb (limit : Nat) (gathering : Gathering) (batch : Alternatives) : Gathering :=
  { gathering with cut := gathering.cut || batch.truncated }.insertAll limit batch.pieces

/-- The batches of a list of sources in order, until a piece has no room. -/
def collect {α : Type} (limit : Nat) (batch : α → Alternatives) (gathering : Gathering) :
    List α → Gathering
  | [] => gathering
  | source :: rest =>
    let next := gathering.absorb limit (batch source)
    if next.overflowed then next else next.collect limit batch rest

/-- The batches of `count` numbers from `first` on, until a piece has no room. The numbers are
not listed, so a count far beyond the limit costs nothing. -/
def collectFrom (limit : Nat) (batch : Nat → Alternatives) (gathering : Gathering) (first : Nat) :
    Nat → Gathering
  | 0 => gathering
  | count + 1 =>
    let next := gathering.absorb limit (batch first)
    if next.overflowed then next else next.collectFrom limit batch (first + 1) count

theorem collectFrom_eq_collect (limit : Nat) (batch : Nat → Alternatives) (gathering : Gathering)
    (first count : Nat) :
    gathering.collectFrom limit batch first count =
      gathering.collect limit batch (List.range' first count) := by
  induction count generalizing gathering first with
  | zero => rfl
  | succ count ih =>
    simp only [List.range'_succ, collectFrom, collect]
    split
    · rfl
    · exact ih _ _

def truncated (gathering : Gathering) : Bool :=
  gathering.overflowed || gathering.cut

def inOrder (gathering : Gathering) : Alternatives :=
  ⟨gathering.kept.reverse.map (·.2), gathering.truncated⟩

/-- The pieces by the length of their texts; among equally long ones the order stays. -/
def byLength (gathering : Gathering) : Alternatives :=
  let measured := gathering.kept.reverse.map fun kept => (kept.1.length, kept.2)
  ⟨(bySize Prod.fst measured).map (·.2), gathering.truncated⟩

end Gathering

end ValueGrammar
