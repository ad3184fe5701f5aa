import ValueGrammar.Proofs.Expansion.Distribution

/-!
Operands in another order. A choice, a subset and a set of operands may choose the same operands in
whatever order these are written. The variants then are the same, though not their order: gathering
may keep other pieces, but no piece is left out unless one with its tokens and separators is kept.
-/
namespace ValueGrammar

/-! ### Choosing among operands in another order -/

namespace Combinator

variable {combinator : Combinator}

theorem Chooses.perm {α : Type} (orderless : combinator.IsOrderless) {operands permuted chosen : List α}
    (perm : operands.Perm permuted) (choice : combinator.Chooses operands chosen) :
    combinator.Chooses permuted chosen := by
  cases combinator with
  | sequence => exact absurd orderless (by decide)
  | list => exact absurd orderless (by decide)
  | choice =>
    obtain ⟨operand, member, rfl⟩ := choice
    exact ⟨operand, perm.subset member, rfl⟩
  | someOf => exact ⟨choice.1, choice.2.trans perm.subperm⟩
  | allOf => exact List.Perm.trans choice perm

variable {limits : Limits} {operands permuted : List (List Piece)}

/-- A piece of a group has a piece with its text when the operands stand in another order. -/
theorem exists_mem_of_perm (orderless : combinator.IsOrderless) (perm : operands.Perm permuted)
    (uncut : (combinator.alternatives limits permuted).truncated = false) {piece : Piece}
    (member : piece ∈ (combinator.alternatives limits operands).pieces) :
    ∃ other ∈ (combinator.alternatives limits permuted).pieces, other.text = piece.text := by
  obtain ⟨chosen, choice, row, inside, rfl⟩ := of_mem_alternatives member
  exact exists_mem_alternatives uncut (choice.perm orderless perm) inside

end Combinator

/-! ### Shapes -/

namespace Derivation

variable {context : Context} {combinator : Combinator} {grammar permutedGrammar : String}
  {expansion permuted : Expansion} {items permutedItems : List Lexeme} {trees permutedTrees : List Tree}

/-- A group has the shapes of the group of its operands in another order. -/
theorem shapes_subset_of_perm (orderless : combinator.IsOrderless)
    (derivation : Derivation context grammar expansion items (.group combinator trees))
    (other : Derivation context permutedGrammar permuted permutedItems
      (.group combinator permutedTrees))
    (perm : trees.Perm permutedTrees) (whole : permuted.truncated = false) :
    expansion.shapes ⊆ permuted.shapes := by
  intro shape member
  rw [derivation.shapes_eq] at member
  obtain ⟨nonempty, piece, inside, rfl⟩ := member
  have uncut := (Tree.uncut_of_group (other.truncated.symm.trans whole)).2
  have ofGroup := inside
  rw [Context.pieces, Tree.pieces_group] at ofGroup
  obtain ⟨kept, ofKept, same⟩ :=
    Combinator.exists_mem_of_perm orderless (perm.map _) uncut ofGroup
  rw [← Tree.pieces_group] at ofKept
  have normalized : kept.normalize = piece.normalize :=
    Piece.normalize_eq_of_text
      (fun text token => other.written (List.Subset.refl _) ofKept token)
      (fun text token => derivation.written (List.Subset.refl _) inside token) same
  rw [other.shapes_eq]
  exact ⟨nonempty, kept, ofKept, normalized⟩

end Derivation

/-! ### Main result -/

namespace Context

variable {context : Context} {combinator : Combinator} {grammars permuted : List String}

/-- A row of several bracketed grammars denotes a group of their trees. -/
theorem denotes_group_of_accepts {trees : List Tree} (several : 2 ≤ grammars.length)
    (accepted : List.Forall₂ context.Accepts grammars trees) :
    context.Denotes (combinator.row (grammars.map bracketed)) (.group combinator trees) := by
  have operands : List.Forall₂ (context.DenotesOperand combinator) (grammars.map bracketed) trees :=
    List.forall₂_map_left_iff.mpr
      (accepted.imp fun _ _ accepted => accepted.denotes.isOperand combinator)
  cases accepted with
  | nil => simp at several
  | cons first others =>
    cases others with
    | nil => simp at several
    | cons second others =>
      have row := DenotesOperand.row (List.cons_ne_nil _ _) operands
      rw [Tree.ofOperands_cons_cons] at row
      exact row

/-- The order of the operands does not matter for what a choice, a subset or a set of operands
allows. -/
theorem mem_variants_perm (orderless : combinator.IsOrderless) (several : 2 ≤ grammars.length)
    (accepted : ∀ grammar ∈ grammars, ∃ tree, context.Accepts grammar tree)
    (perm : grammars.Perm permuted) {expansion expansion' : Expansion}
    (expands : context.Expands (combinator.row (grammars.map bracketed)) expansion)
    (expands' : context.Expands (combinator.row (permuted.map bracketed)) expansion')
    (variant : Variant) : variant ∈ expansion.variants ↔ variant ∈ expansion'.variants := by
  obtain ⟨trees, each⟩ := exists_forall₂ accepted
  obtain ⟨trees', each', permTrees⟩ := List.perm_comp_forall₂ perm.symm each
  have several' : 2 ≤ permuted.length := perm.length_eq ▸ several
  obtain ⟨items, derivation⟩ := (denotes_group_of_accepts several each).exists_derivation
    expands.expanded expands.structured
  obtain ⟨items', derivation'⟩ := (denotes_group_of_accepts several' each').exists_derivation
    expands'.expanded expands'.structured
  have same : expansion.shapes = expansion'.shapes := Set.Subset.antisymm
    (derivation.shapes_subset_of_perm orderless derivation' permTrees.symm expands'.whole)
    (derivation'.shapes_subset_of_perm orderless derivation permTrees expands.whole)
  -- Tokens are read without regard to the grammar, so variants of one shape are the same.
  constructor
  · intro member
    have read := derivation.ofToken_of_mem member
    rw [derivation'.mem_variants_iff read, ← same]
    exact (derivation.mem_variants_iff read).mp member
  · intro member
    have read := derivation'.ofToken_of_mem member
    rw [derivation.mem_variants_iff read, same]
    exact (derivation'.mem_variants_iff read).mp member

/-- Of `a /` and `/ a?`, in either order, gathering keeps only one of the two pieces with the text `a`. -/
theorem mem_variants_perm_slash : ∃ expansion expansion',
    standard.Expands (Combinator.someOf.row (["a /", "/ a?"].map bracketed)) expansion ∧
      standard.Expands (Combinator.someOf.row (["/ a?", "a /"].map bracketed)) expansion' ∧
        ∀ variant, variant ∈ expansion.variants ↔ variant ∈ expansion'.variants := by
  have expands (grammars : List String) (passed : Distribution.expandsTo standard (fun _ => true)
      (Combinator.someOf.row (grammars.map bracketed)) = true) :
      ∃ expansion, standard.Expands (Combinator.someOf.row (grammars.map bracketed)) expansion :=
    Distribution.exists_expansion passed
  obtain ⟨expansion, written⟩ := expands ["a /", "/ a?"] (by decide +kernel)
  obtain ⟨expansion', permuted⟩ := expands ["/ a?", "a /"] (by decide +kernel)
  have accepted : ∀ grammar ∈ ["a /", "/ a?"], ∃ tree, standard.Accepts grammar tree := by
    intro grammar member
    apply Distribution.exists_accepts
    revert member
    revert grammar
    decide +kernel
  exact ⟨expansion, expansion', written, permuted, mem_variants_perm (by decide) (by decide) accepted
    (List.Perm.swap ..) written permuted⟩

end Context

end ValueGrammar
