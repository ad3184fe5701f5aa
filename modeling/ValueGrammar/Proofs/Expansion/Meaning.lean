import ValueGrammar.Proofs.Expansion.Derivation

/-!
What an expansion means. The variants of a structured expansion are normalized readings of the tree
of its grammar, and without slashes and cuts there is a variant for every reading with a token.
-/
namespace ValueGrammar

/-- Without a slash among the leaves, every leaf is a written token. -/
theorem Derivation.plain {context : Context} {grammar : String} {expansion : Expansion}
    {items : List Lexeme} {tree : Tree}
    (derivation : Derivation context grammar expansion items tree)
    (noSlash : .separator .slash ∉ tree.leaves) : Tree.Plain tree.leaves := by
  intro atom leaf
  have inside := Tree.isLexeme_of_mem_leaves derivation.built atom leaf
  cases atom with
  | token text => exact ⟨text, rfl, (derivation.settled text inside).written⟩
  | separator s =>
    rw [inside.1] at leaf
    exact absurd leaf noSlash

/-- Every variant is a normalized reading of the tree of the grammar, also when variants have been
left out; and every reading of a tree without slashes that has a token is normalized to a variant,
when none has been left out. -/
theorem expand_reads_grammar {context : Context} {grammar : String} {expansion : Expansion}
    (expanded : context.expand grammar = .ok expansion)
    (structured : expansion.isStructured = true) :
    ∃ items tree,
      context.registry.substitute (Text.trim grammar) = .ok ⟨items, []⟩ ∧
        Tree.ofLexemes items = .ok tree ∧
        (∀ variant ∈ expansion.variants,
          ∃ piece ∈ tree.readings context.limits.repetitions, variant.shape = piece.normalize) ∧
        (.separator .slash ∉ tree.leaves → expansion.truncated = false →
          ∀ piece ∈ tree.readings context.limits.repetitions, piece.normalize.1 ≠ [] →
            ∃ variant ∈ expansion.variants, variant.shape = piece.normalize) := by
  obtain ⟨items, tree, derivation⟩ := exists_derivation expanded structured
  refine ⟨items, tree, derivation.substituted, derivation.built, ?_, ?_⟩
  · intro variant member
    obtain ⟨piece, inside, made⟩ := (Variant.mem_ofPieces derivation.variants).mp member
    have reading := Tree.readings_of_mem_alternatives tree inside
    exact ⟨piece, reading, Variant.shape_of_ofPiece? made⟩
  · intro noSlash whole piece reading nonempty
    have uncut : (tree.alternatives context.limits).truncated = false := by
      rw [← derivation.truncated]
      exact whole
    have inside := Tree.mem_alternatives_of_readings tree (derivation.plain noSlash) uncut piece
      reading
    exact Variant.exists_of_mem derivation.variants inside nonempty

/-- The readings of a grammar of two keywords in any order. -/
theorem expand_reads_two_keywords : ∃ expansion,
    Context.standard.expand "solid || red" = .ok expansion ∧
      (expansion.isStructured && !expansion.truncated &&
        expansion.variants.map (·.text) == ["red", "solid", "solid red", "red solid"]) = true ∧
      ∃ items tree,
        Context.standard.registry.substitute (Text.trim "solid || red") = .ok ⟨items, []⟩ ∧
          Tree.ofLexemes items = .ok tree ∧
          (∀ variant ∈ expansion.variants,
            ∃ piece ∈ tree.readings 4, variant.shape = piece.normalize) ∧
          (.separator .slash ∉ tree.leaves → expansion.truncated = false →
            ∀ piece ∈ tree.readings 4, piece.normalize.1 ≠ [] →
              ∃ variant ∈ expansion.variants, variant.shape = piece.normalize) := by
  have computed : (Context.standard.expand "solid || red").toOption.any (fun expansion =>
      expansion.isStructured && !expansion.truncated &&
        expansion.variants.map (·.text) == ["red", "solid", "solid red", "red solid"]) = true := by
    decide +kernel
  obtain ⟨expansion, expanded, tested⟩ := exists_ok_of_any computed
  have structured : expansion.isStructured = true := by
    simp only [Bool.and_eq_true] at tested
    exact tested.1.1
  exact ⟨expansion, expanded, tested, expand_reads_grammar expanded structured⟩

end ValueGrammar
