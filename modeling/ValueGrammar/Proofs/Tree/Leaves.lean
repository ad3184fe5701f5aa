import ValueGrammar.Piece.Basic
import ValueGrammar.Proofs.Tree.Building

/-!
The leaves of a combinator tree. Those of a tree built from lexemes are among the lexemes.
-/
namespace ValueGrammar.Tree

mutual

def leaves : Tree → List Atom
  | token text => [.token text]
  | separator s => [.separator s]
  | group _ children => childLeaves children
  | repeated body _ => leaves body

def childLeaves : List Tree → List Atom
  | [] => []
  | child :: children => leaves child ++ childLeaves children

end

/-- Whether a leaf is one of the lexemes of a run. -/
def IsLexeme (items : List Lexeme) : Atom → Prop
  | .token text => .token text ∈ items
  | .separator s => s = .slash ∧ .slash ∈ items

theorem IsLexeme.mono {items items' : List Lexeme} {atom : Atom} (inside : IsLexeme items atom)
    (subset : items ⊆ items') : IsLexeme items' atom := by
  cases atom with
  | token text => exact subset inside
  | separator s => exact ⟨inside.1, subset inside.2⟩

theorem mem_childLeaves {trees : List Tree} {atom : Atom} :
    atom ∈ childLeaves trees ↔ ∃ tree ∈ trees, atom ∈ tree.leaves := by
  induction trees with
  | nil => simp [childLeaves]
  | cons tree trees ih => simp [childLeaves, ih]

theorem leaves_underMultipliers (tree : Tree) (multipliers : List Multiplier) :
    (underMultipliers tree multipliers).leaves = tree.leaves := by
  induction multipliers generalizing tree with
  | nil => rfl
  | cons m multipliers ih =>
    change (underMultipliers (repeated tree m) multipliers).leaves = _
    rw [ih, leaves]

theorem leaves_ofSequence (trees : List Tree) : (ofSequence trees).leaves = childLeaves trees := by
  unfold ofSequence
  split
  · simp [childLeaves, leaves]
  · simp [childLeaves, leaves]
  · simp [childLeaves, leaves]
  · rw [leaves]

theorem isLexeme_of_mem_childLeaves {α : Type} {R : α → Tree → Prop} {sources : List α}
    {trees : List Tree} {items : List Lexeme} (related : List.Forall₂ R sources trees)
    (each : ∀ source ∈ sources, ∀ tree, R source tree → ∀ atom ∈ tree.leaves, IsLexeme items atom) :
    ∀ atom ∈ childLeaves trees, IsLexeme items atom := by
  induction related with
  | nil =>
    intro atom member
    cases member
  | cons here _ ih =>
    intro atom member
    rcases List.mem_append.mp member with first | later
    · exact each _ List.mem_cons_self _ here atom first
    · exact ih (fun source inside => each source (List.mem_cons_of_mem _ inside)) atom later

/-- The leaves of a tree are lexemes of the run it has been built from. -/
theorem isLexeme_of_mem_leaves {items : List Lexeme} {tree : Tree}
    (built : ofLexemes items = .ok tree) : ∀ atom ∈ tree.leaves, IsLexeme items atom := by
  unfold ofLexemes at built
  split at built
  · next balanced =>
    refine ofBalanced_induction (motive := fun items tree => ∀ atom ∈ tree.leaves,
      IsLexeme items atom) ?_ ?_ balanced built
    · intro items kind runs trees cut _ inner
      obtain ⟨-, rfl, -⟩ := split?_eq_some cut
      rw [leaves]
      apply isLexeme_of_mem_childLeaves inner
      intro run member tree builtRun atom leaf
      exact (builtRun.2 atom leaf).mono (mem_of_mem_operands member)
    · intro found trees _ inner
      rw [leaves_ofSequence]
      apply isLexeme_of_mem_childLeaves inner
      intro part member tree builtPart atom leaf
      obtain ⟨core, rfl, shape⟩ := builtPart
      rw [leaves_underMultipliers] at leaf
      have within : part.core.lexemes ⊆ found.flatMap Part.lexemes := fun x inside =>
        List.mem_flatMap.mpr ⟨part, member, List.mem_append_left _ inside⟩
      refine IsLexeme.mono ?_ within
      cases kind : part.core with
      | token text =>
        rw [kind] at shape
        rw [shape, leaves, List.mem_singleton] at leaf
        rw [leaf]
        exact List.mem_cons_self
      | slash =>
        rw [kind] at shape
        rw [shape, leaves, List.mem_singleton] at leaf
        rw [leaf]
        exact ⟨rfl, List.mem_cons_self⟩
      | brackets inner =>
        rw [kind] at shape
        have enclosed : inner ⊆ (Core.brackets inner).lexemes := fun x inside =>
          List.mem_cons_of_mem _ (List.mem_append_left _ inside)
        exact (shape.2 atom leaf).mono enclosed
  · cases built

end ValueGrammar.Tree
