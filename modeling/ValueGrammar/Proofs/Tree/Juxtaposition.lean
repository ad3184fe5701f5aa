import ValueGrammar.Proofs.Piece.Juxtaposition
import ValueGrammar.Proofs.Tree.Delimited
import ValueGrammar.Proofs.Tree.Readings

/-!
Pieces of sequences, choices and options. The pieces of a sequence are the rows of the pieces of its
operands, and those of a choice or an option represent all that may stand there.
-/
namespace ValueGrammar.Tree

variable {limits : Limits} {piece : Piece}

theorem childAlternatives_eq_map (limits : Limits) (trees : List Tree) :
    childAlternatives limits trees = trees.map (alternatives limits) := by
  induction trees with
  | nil => rfl
  | cons tree trees ih => rw [childAlternatives, ih, List.map_cons]

/-- A group that is not cut off has operands that are not. -/
theorem uncut_of_group {combinator : Combinator} {trees : List Tree}
    (uncut : ((group combinator trees).alternatives limits).truncated = false) :
    (∀ tree ∈ trees, (tree.alternatives limits).truncated = false) ∧
      (combinator.alternatives limits
        (trees.map fun tree => (tree.alternatives limits).pieces)).truncated = false := by
  simp only [alternatives, childAlternatives_eq_map, List.map_map, Bool.or_eq_false_iff] at uncut
  refine ⟨fun tree member => ?_, uncut.2⟩
  have each := List.any_eq_false.mp uncut.1 _ (List.mem_map_of_mem member)
  simpa using each

theorem pieces_group (combinator : Combinator) (trees : List Tree) :
    ((group combinator trees).alternatives limits).pieces = (combinator.alternatives limits
      (trees.map fun tree => (tree.alternatives limits).pieces)).pieces := by
  simp only [alternatives, childAlternatives_eq_map, List.map_map]
  rfl

/-- The pieces of a sequence are the rows of the pieces of its operands. -/
theorem mem_sequence {trees : List Tree}
    (uncut : ((group .sequence trees).alternatives limits).truncated = false) :
    piece ∈ ((group .sequence trees).alternatives limits).pieces ↔
      ∃ row, List.Forall₂ (fun piece tree => piece ∈ (tree.alternatives limits).pieces) row trees ∧
        piece = row.flatten := by
  rw [pieces_group]
  constructor
  · intro member
    obtain ⟨row, inside, rfl⟩ := Alternatives.of_mem_product member
    exact ⟨row, List.forall₂_map_right_iff.mp inside, rfl⟩
  · intro ⟨row, inside, eq⟩
    subst eq
    exact Alternatives.mem_product (uncut_of_group uncut).2 (List.forall₂_map_right_iff.mpr inside)

theorem mem_pair {first second : Tree}
    (uncut : ((group .sequence [first, second]).alternatives limits).truncated = false) :
    piece ∈ ((group .sequence [first, second]).alternatives limits).pieces ↔
      piece ∈ Piece.inRow (first.alternatives limits).pieces (second.alternatives limits).pieces
        [[]] := by
  rw [mem_sequence uncut, Piece.mem_inRow_nil]
  constructor
  · intro ⟨row, inside, eq⟩
    subst eq
    cases inside with
    | cons here later =>
      cases later with
      | cons next none =>
        cases none
        exact ⟨_, here, _, next, by simp⟩
  · intro ⟨front, ofFirst, back, ofSecond, eq⟩
    exact ⟨[front, back], .cons ofFirst (.cons ofSecond .nil), by simp [eq]⟩

theorem mem_triple {first second third : Tree}
    (uncut : ((group .sequence [first, second, third]).alternatives limits).truncated = false) :
    piece ∈ ((group .sequence [first, second, third]).alternatives limits).pieces ↔
      piece ∈ Piece.inRow (first.alternatives limits).pieces (second.alternatives limits).pieces
        (third.alternatives limits).pieces := by
  rw [mem_sequence uncut, Piece.mem_inRow]
  constructor
  · intro ⟨row, inside, eq⟩
    subst eq
    cases inside with
    | cons here later =>
      cases later with
      | cons next last =>
        cases last with
        | cons behind none =>
          cases none
          exact ⟨_, here, _, next, _, behind, by simp⟩
  · intro ⟨front, ofFirst, middle, ofSecond, back, ofThird, eq⟩
    exact ⟨[front, middle, back], .cons ofFirst (.cons ofSecond (.cons ofThird .nil)),
      by simp [eq]⟩

/-- The pieces of a choice represent those of its operands. -/
theorem represents_choice {trees : List Tree}
    (uncut : ((group .choice trees).alternatives limits).truncated = false) :
    Piece.Represents ((group .choice trees).alternatives limits).pieces
      (trees.flatMap fun tree => (tree.alternatives limits).pieces) := by
  rw [pieces_group]
  constructor
  · intro piece member
    obtain ⟨chosen, ⟨operand, ofOperands, rfl⟩, row, inside, rfl⟩ :=
      Combinator.of_mem_alternatives member
    obtain ⟨tree, ofTrees, rfl⟩ := List.mem_map.mp ofOperands
    cases inside with
    | cons here none =>
      cases none
      rw [show Combinator.choice.joiner = none from rfl, Piece.joined_singleton]
      exact List.mem_flatMap.mpr ⟨tree, ofTrees, here⟩
  · intro piece member
    obtain ⟨tree, ofTrees, here⟩ := List.mem_flatMap.mp member
    have choice : Combinator.choice.Chooses (trees.map fun tree => (tree.alternatives limits).pieces)
        [(tree.alternatives limits).pieces] := ⟨_, List.mem_map_of_mem ofTrees, rfl⟩
    obtain ⟨first, ofKept, same⟩ :=
      Combinator.exists_mem_alternatives (uncut_of_group uncut).2 choice (.cons here .nil)
    refine ⟨first, ofKept, ?_⟩
    rw [same]
    exact congrArg Piece.text (Piece.joined_singleton none piece)

theorem allows_optional {limit count : Nat} :
    Multiplier.optional.Allows limit count ↔ count = 0 ∨ count = 1 ∧ 1 ≤ limit := by
  change min 0 limit ≤ count ∧ count ≤ max (min 0 limit) (min 1 limit) ↔ _
  omega

/-- The pieces of an optional operand are the empty piece and pieces of the operand. -/
theorem optional_subset {tree : Tree} :
    ((repeated tree .optional).alternatives limits).pieces ⊆
      [] :: (tree.alternatives limits).pieces := by
  intro piece member
  obtain ⟨count, allowed, row, inside, rfl⟩ := Multiplier.of_mem_alternatives member
  rcases allows_optional.mp allowed with rfl | ⟨rfl, -⟩
  · cases inside
    exact List.mem_cons_self
  · cases inside with
    | cons here none =>
      cases none
      rw [show Multiplier.optional.joiner = none from rfl, Piece.joined_singleton]
      exact List.mem_cons_of_mem _ here

/-- Where repetitions are allowed at all, an optional operand represents the empty piece and all
pieces of the operand. -/
theorem represents_optional {tree : Tree} (room : 1 ≤ limits.repetitions)
    (uncut : ((repeated tree .optional).alternatives limits).truncated = false) :
    Piece.Represents ((repeated tree .optional).alternatives limits).pieces
      ([] :: (tree.alternatives limits).pieces) := by
  refine ⟨optional_subset, fun piece member => ?_⟩
  simp only [alternatives, Bool.or_eq_false_iff] at uncut
  rcases List.mem_cons.mp member with rfl | here
  · exact Multiplier.exists_mem_alternatives uncut.2 (allows_optional.mpr (Or.inl rfl)) .nil
  · obtain ⟨first, ofKept, same⟩ := Multiplier.exists_mem_alternatives uncut.2
      (allows_optional.mpr (Or.inr ⟨rfl, room⟩)) (.cons here .nil)
    refine ⟨first, ofKept, ?_⟩
    rw [same]
    exact congrArg Piece.text (Piece.joined_singleton none piece)

end ValueGrammar.Tree
