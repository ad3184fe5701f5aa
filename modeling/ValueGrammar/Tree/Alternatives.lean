import ValueGrammar.Limits
import ValueGrammar.Piece.Arrangement
import ValueGrammar.Piece.Gather
import ValueGrammar.Tree.Basic

/-!
The pieces that a combinator tree stands for. A choice, a subset in any order and a repetition
are gathered without duplicates; a sequence and a list are plain products. Trees with too many
operands in one unordered group are not expanded: `Tree.excess?` finds the first such group.
-/
namespace ValueGrammar

/-- The pieces of a group, given those of its operands. -/
def Combinator.alternatives (limits : Limits) (combinator : Combinator)
    (operands : List (List Piece)) : Alternatives :=
  let row := Alternatives.product limits.variants none
  match combinator with
  | .sequence => row operands
  | .list => Alternatives.product limits.variants (some .comma) operands
  | .choice =>
    (Gathering.empty.collect limits.variants (fun pieces => ⟨pieces, false⟩) operands).byLength
  | .someOf =>
    (Gathering.empty.collect limits.variants row (Arrangement.arrangements operands)).byLength
  | .allOf =>
    (Gathering.empty.collect limits.variants row (Arrangement.orderings operands)).byLength

def Multiplier.least (m : Multiplier) (limit : Nat) : Nat :=
  Nat.min m.min limit

/-- The greatest count of a multiplier below a limit, never less than the least. -/
def Multiplier.greatest (m : Multiplier) (limit : Nat) : Nat :=
  Nat.max (m.least limit) (Nat.min (m.max?.getD limit) limit)

/-- How many counts a multiplier allows below a limit. -/
def Multiplier.span (m : Multiplier) (limit : Nat) : Nat :=
  m.greatest limit + 1 - m.least limit

def Multiplier.counts (m : Multiplier) (limit : Nat) : List Nat :=
  List.range' (m.least limit) (m.span limit)

def Multiplier.joiner (m : Multiplier) : Option Separator :=
  if m.comma then some .comma else none

/-- The pieces of so many repetitions of an operand. -/
def Multiplier.repetitions (limits : Limits) (m : Multiplier) (pieces : List Piece) (count : Nat) :
    Alternatives :=
  Alternatives.product limits.variants m.joiner (List.replicate count pieces)

def Multiplier.alternatives (limits : Limits) (m : Multiplier) (pieces : List Piece) :
    Alternatives :=
  (Gathering.empty.collectFrom limits.variants (m.repetitions limits pieces)
    (m.least limits.repetitions) (m.span limits.repetitions)).inOrder

theorem Multiplier.alternatives_eq_collect (limits : Limits) (m : Multiplier)
    (pieces : List Piece) :
    m.alternatives limits pieces =
      (Gathering.empty.collect limits.variants (m.repetitions limits pieces)
        (m.counts limits.repetitions)).inOrder := by
  rw [alternatives, Gathering.collectFrom_eq_collect, counts]

namespace Tree

mutual

def alternatives (limits : Limits) : Tree → Alternatives
  | token text => ⟨[[.token text]], false⟩
  | separator s => ⟨[[.separator s]], false⟩
  | group combinator children =>
    let operands := childAlternatives limits children
    let own := combinator.alternatives limits (operands.map (·.pieces))
    ⟨own.pieces, operands.any (·.truncated) || own.truncated⟩
  | repeated body m =>
    let operand := alternatives limits body
    let own := m.alternatives limits operand.pieces
    ⟨own.pieces, operand.truncated || own.truncated⟩

def childAlternatives (limits : Limits) : List Tree → List Alternatives
  | [] => []
  | child :: children => alternatives limits child :: childAlternatives limits children

end

mutual

/-- The number of operands of the first unordered group that has more than the limit; a group is
looked at before the groups inside it. -/
def excess? (limit : Nat) : Tree → Option Nat
  | token _ => none
  | separator _ => none
  | group combinator children =>
    if combinator.isUnordered && limit < children.length then some children.length
    else childExcess? limit children
  | repeated body _ => excess? limit body

def childExcess? (limit : Nat) : List Tree → Option Nat
  | [] => none
  | child :: children => (excess? limit child).or (childExcess? limit children)

end

end Tree

end ValueGrammar
