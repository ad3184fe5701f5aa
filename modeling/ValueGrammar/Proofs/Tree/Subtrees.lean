import ValueGrammar.Error
import ValueGrammar.Proofs.Pointwise
import ValueGrammar.Tree.Alternatives

/-!
The trees inside a tree. A tree is not expanded if an unordered group inside it has more operands
than the limit, whatever stands around the group; the first such group is to blame. It makes no
difference whether the operands are counted before the tree is expanded or group by group while
it is.
-/
namespace ValueGrammar.Tree

mutual

/-- A tree and all trees inside it, each before those inside it, and those of an operand before
those of the next one. -/
def subtrees : Tree → List Tree
  | token text => [token text]
  | separator s => [separator s]
  | group combinator children => group combinator children :: childSubtrees children
  | repeated body m => repeated body m :: subtrees body

def childSubtrees : List Tree → List Tree
  | [] => []
  | child :: children => subtrees child ++ childSubtrees children

end

/-- A group of operands in any order with more of them than a limit. -/
def Exceeds (limit : Nat) (tree : Tree) : Prop :=
  ∃ combinator children, tree = group combinator children ∧ combinator.isUnordered = true ∧
    limit < children.length

def excessHere? (limit : Nat) : Tree → Option Nat
  | group combinator children =>
    if combinator.isUnordered && limit < children.length then some children.length else none
  | _ => none

mutual

theorem excess?_eq_findSome? (limit : Nat) :
    ∀ tree : Tree, tree.excess? limit = tree.subtrees.findSome? (excessHere? limit)
  | token text => rfl
  | separator s => rfl
  | group combinator children => by
    rw [excess?, subtrees, List.findSome?_cons, excessHere?,
      childExcess?_eq_findSome? limit children]
    cases combinator.isUnordered && decide (limit < children.length) <;> rfl
  | repeated body m => by
    rw [excess?, subtrees, List.findSome?_cons, excess?_eq_findSome? limit body]
    rfl

theorem childExcess?_eq_findSome? (limit : Nat) :
    ∀ children : List Tree,
      childExcess? limit children = (childSubtrees children).findSome? (excessHere? limit)
  | [] => rfl
  | child :: children => by
    rw [childExcess?, childSubtrees, List.findSome?_append, excess?_eq_findSome? limit child,
      childExcess?_eq_findSome? limit children]

end

theorem excessHere?_eq_some {limit operands : Nat} {tree : Tree} :
    tree.excessHere? limit = some operands ↔
      tree.Exceeds limit ∧ ∃ combinator children, tree = group combinator children ∧
        operands = children.length := by
  constructor
  · intro found
    cases tree with
    | group combinator children =>
      rw [excessHere?, Option.ite_none_right_eq_some, Bool.and_eq_true, decide_eq_true_eq] at found
      obtain ⟨⟨unordered, exceeded⟩, same⟩ := found
      cases same
      exact ⟨⟨combinator, children, rfl, unordered, exceeded⟩, combinator, children, rfl, rfl⟩
    | _ => cases found
  · intro given
    obtain ⟨⟨combinator, children, rfl, unordered, exceeded⟩, combinator', children', same, rfl⟩ := given
    cases same
    simp [excessHere?, unordered, exceeded]

theorem excessHere?_eq_none {limit : Nat} {tree : Tree} :
    tree.excessHere? limit = none ↔ ¬ tree.Exceeds limit := by
  constructor
  · intro none exceeds
    obtain ⟨combinator, children, rfl, unordered, exceeded⟩ := exceeds
    simp [excessHere?, unordered, exceeded] at none
  · intro bounded
    rw [Option.eq_none_iff_forall_ne_some]
    intro operands found
    exact bounded (excessHere?_eq_some.mp found).1

/-- What is found is the number of operands of the first group with too many of them. -/
theorem excess?_eq_some {limit operands : Nat} {tree : Tree} :
    tree.excess? limit = some operands ↔
      ∃ combinator children, IsFirst (Exceeds limit) tree.subtrees (group combinator children) ∧
        operands = children.length := by
  simp only [excess?_eq_findSome?, List.findSome?_eq_some_iff, excessHere?_eq_some,
    excessHere?_eq_none, IsFirst]
  constructor
  · intro given
    obtain ⟨before, found, behind, split, ⟨exceeds, combinator, children, rfl, same⟩, none⟩ := given
    exact ⟨combinator, children, ⟨exceeds, before, behind, split, none⟩, same⟩
  · intro given
    obtain ⟨combinator, children, ⟨exceeds, before, behind, split, none⟩, same⟩ := given
    exact ⟨before, _, behind, split, ⟨exceeds, combinator, children, rfl, same⟩, none⟩

theorem excess?_eq_none {limit : Nat} {tree : Tree} :
    tree.excess? limit = none ↔ ∀ inside ∈ tree.subtrees, ¬ inside.Exceeds limit := by
  simp only [excess?_eq_findSome?, List.findSome?_eq_none_iff, excessHere?_eq_none]

/-! ### Counting on the way -/

mutual

/-- The pieces of a tree, the operands of every unordered group being counted before they are
expanded. -/
def counted (limits : Limits) : Tree → Except Error Alternatives
  | token text => .ok ⟨[[.token text]], false⟩
  | separator s => .ok ⟨[[.separator s]], false⟩
  | group combinator children =>
    if combinator.isUnordered && limits.operands < children.length then
      .error (.tooManyOperands children.length limits.operands)
    else do
      let operands ← childCounted limits children
      let own := combinator.alternatives limits (operands.map (·.pieces))
      return ⟨own.pieces, operands.any (·.truncated) || own.truncated⟩
  | repeated body m => do
    let operand ← counted limits body
    let own := m.alternatives limits operand.pieces
    return ⟨own.pieces, operand.truncated || own.truncated⟩

/-- The pieces of each of several trees, as far as the first that has too many operands. -/
def childCounted (limits : Limits) : List Tree → Except Error (List Alternatives)
  | [] => .ok []
  | child :: children => do
    let first ← counted limits child
    let others ← childCounted limits children
    return first :: others

end

/-- What is found unless too many operands are. -/
def unlessExceeded {α : Type} (limits : Limits) (excess? : Option Nat) (found : α) :
    Except Error α :=
  match excess? with
  | some operands => .error (.tooManyOperands operands limits.operands)
  | none => .ok found

mutual

/-- Neither a cut nor a count of zero hides a group from being counted. -/
theorem counted_eq (limits : Limits) :
    ∀ tree : Tree, tree.counted limits =
      unlessExceeded limits (tree.excess? limits.operands) (tree.alternatives limits)
  | token text => rfl
  | separator s => rfl
  | group combinator children => by
    rw [counted, excess?, alternatives, childCounted_eq limits children]
    split
    · rfl
    · cases childExcess? limits.operands children with
      | some operands => rfl
      | none => rfl
  | repeated body m => by
    rw [counted, excess?, alternatives, counted_eq limits body]
    cases body.excess? limits.operands with
    | some operands => rfl
    | none => rfl

theorem childCounted_eq (limits : Limits) :
    ∀ children : List Tree, childCounted limits children =
      unlessExceeded limits (childExcess? limits.operands children)
        (childAlternatives limits children)
  | [] => rfl
  | child :: children => by
    rw [childCounted, childExcess?, childAlternatives, counted_eq limits child,
      childCounted_eq limits children]
    cases child.excess? limits.operands with
    | some operands => rfl
    | none =>
      cases childExcess? limits.operands children with
      | some operands => rfl
      | none => rfl

end

end ValueGrammar.Tree
