import ValueGrammar.Proofs.Expansion.Derivation
import ValueGrammar.Proofs.Registry.Refused
import ValueGrammar.Proofs.Tree.Subtrees

/-!
The outcome of an expansion. Whether a grammar expands, and if not why, is decided by the grammar:
by its substitution, by the tree of what substitution leaves, and by the sizes of the unordered
groups in that tree. The variants that are made of the tree can always be read, so the limits on
their number and on repetitions have no say.
-/
namespace ValueGrammar

/-! ### Variants that can be read -/

/-- A piece of tokens that are references has a variant, or none for want of tokens. -/
theorem Variant.exists_ofPiece? {piece : Piece}
    (written : ∀ text, .token text ∈ piece → Written text) :
    ∃ found, ofPiece? piece = .ok found := by
  by_cases empty : piece.normalize.1 = []
  · refine ⟨none, ?_⟩
    unfold ofPiece?
    dsimp only
    rw [if_pos (List.isEmpty_iff.mpr empty)]
  · have placed (texts : List String) (each : ∀ text ∈ texts, Written text) :
        ∃ places, List.Forall₂ (fun token place => Place.ofToken token = .ok place) texts places := by
      induction texts with
      | nil => exact ⟨[], .nil⟩
      | cons text texts ih =>
        obtain ⟨places, later⟩ := ih fun other member => each other (List.mem_cons_of_mem _ member)
        obtain ⟨reference, parsed, -⟩ := each text List.mem_cons_self
        have here : Place.ofToken text = .ok ⟨text, reference.key, reference.range?⟩ := by
          rw [Place.ofToken, parsed]
          rfl
        exact ⟨_, .cons here later⟩
    obtain ⟨places, tokens⟩ := placed piece.normalize.1 fun text member =>
      written text (Piece.mem_normalize.mp member)
    exact ⟨some ⟨places, piece.normalize.2⟩, ofPiece?_eq_some.mpr ⟨empty, rfl, tokens⟩⟩

theorem Variant.exists_ofPieces {pieces : List Piece}
    (read : ∀ piece ∈ pieces, ∃ found, ofPiece? piece = .ok found) :
    ∃ variants, ofPieces pieces = .ok variants := by
  induction pieces with
  | nil => exact ⟨[], rfl⟩
  | cons piece pieces ih =>
    obtain ⟨found, here⟩ := read piece List.mem_cons_self
    obtain ⟨variants, later⟩ := ih fun other member => read other (List.mem_cons_of_mem _ member)
    exact ⟨found.toList ++ variants,
      bind_eq_ok.mpr ⟨found, here, bind_eq_ok.mpr ⟨variants, later, rfl⟩⟩⟩

/-- The pieces of a tree of settled tokens have variants, whatever the limits. -/
theorem Tree.exists_ofPiece? {registry : Registry} {items : List Lexeme}
    (settled : registry.SettledItems items) {tree : Tree} (built : ofLexemes items = .ok tree)
    (limits : Limits) {piece : Piece} (member : piece ∈ (tree.alternatives limits).pieces) :
    ∃ found, Variant.ofPiece? piece = .ok found := by
  apply Variant.exists_ofPiece?
  intro text inside
  have leaf := leaves_of_mem_readings (readings_of_mem_alternatives tree member) inside
  exact (settled text (isLexeme_of_mem_leaves built _ leaf)).written

/-! ### Outcomes -/

/-- Whether a grammar is taken apart or left as it is, or why it is refused: an expansion without
anything that is expanded. -/
def Registry.outcome (registry : Registry) (limit : Nat) (grammar : String) : Except Error Bool := do
  let substitution ← registry.substitute grammar
  if !substitution.unknown.isEmpty then return false
  let tree ← Context.tree substitution.items
  match tree.excess? limit with
  | some operands => .error (.tooManyOperands operands limit)
  | none => return true

namespace Registry

variable {registry : Registry} {limit : Nat} {grammar : String} {substitution : Substitution}

theorem outcome_of_unknown (substituted : registry.substitute grammar = .ok substitution)
    (unknown : substitution.unknown ≠ []) : registry.outcome limit grammar = .ok false := by
  have noted : (!substitution.unknown.isEmpty) = true := by simp [unknown]
  unfold outcome
  rw [substituted]
  exact if_pos noted

theorem outcome_of_unread (substituted : registry.substitute grammar = .ok substitution)
    (known : substitution.unknown = []) {cause : Malformation}
    (unread : Tree.ofLexemes substitution.items = .error cause) :
    registry.outcome limit grammar = .error (.malformed cause) := by
  have unnoted : ¬ (!substitution.unknown.isEmpty) = true := by simp [known]
  unfold outcome
  rw [substituted]
  refine (if_neg unnoted).trans ?_
  rw [Context.tree, unread]
  rfl

theorem outcome_of_built (substituted : registry.substitute grammar = .ok substitution)
    (known : substitution.unknown = []) {tree : Tree}
    (built : Tree.ofLexemes substitution.items = .ok tree) :
    registry.outcome limit grammar =
      match tree.excess? limit with
      | some operands => .error (.tooManyOperands operands limit)
      | none => .ok true := by
  have unnoted : ¬ (!substitution.unknown.isEmpty) = true := by simp [known]
  unfold outcome
  rw [substituted]
  refine (if_neg unnoted).trans ?_
  rw [tree_eq_ok.mpr built]
  rfl

/-- A grammar is left as it is exactly for keys without a definition. -/
theorem outcome_eq_false_iff (substituted : registry.substitute grammar = .ok substitution) :
    registry.outcome limit grammar = .ok false ↔ substitution.unknown ≠ [] := by
  constructor
  · intro left known
    cases built : Tree.ofLexemes substitution.items with
    | error cause =>
      rw [outcome_of_unread substituted known built] at left
      cases left
    | ok tree =>
      rw [outcome_of_built substituted known built] at left
      split at left
      · cases left
      · cases left
  · exact outcome_of_unknown substituted

/-- Behind its substitution a grammar is malformed exactly if its lexemes make no tree. -/
theorem outcome_eq_malformed_iff (substituted : registry.substitute grammar = .ok substitution)
    (known : substitution.unknown = []) {cause : Malformation} :
    registry.outcome limit grammar = .error (.malformed cause) ↔
      Tree.ofLexemes substitution.items = .error cause := by
  constructor
  · intro refused
    cases built : Tree.ofLexemes substitution.items with
    | error cause' =>
      rw [outcome_of_unread substituted known built] at refused
      cases refused
      rfl
    | ok tree =>
      rw [outcome_of_built substituted known built] at refused
      split at refused
      · cases refused
      · cases refused
  · exact outcome_of_unread substituted known

/-- A tree is refused for the first of its groups that has too many operands. -/
theorem outcome_eq_tooMany_iff (substituted : registry.substitute grammar = .ok substitution)
    (known : substitution.unknown = []) {tree : Tree}
    (built : Tree.ofLexemes substitution.items = .ok tree) {operands bound : Nat} :
    registry.outcome limit grammar = .error (.tooManyOperands operands bound) ↔
      bound = limit ∧ ∃ combinator children,
        IsFirst (Tree.Exceeds bound) tree.subtrees (.group combinator children) ∧
          operands = children.length := by
  rw [outcome_of_built substituted known built]
  constructor
  · intro refused
    split at refused
    · next found exceeded =>
      cases refused
      exact ⟨rfl, Tree.excess?_eq_some.mp exceeded⟩
    · cases refused
  · intro given
    obtain ⟨rfl, first⟩ := given
    rw [Tree.excess?_eq_some.mpr first]

/-- A tree is expanded exactly if none of its groups has too many operands. -/
theorem outcome_eq_true_iff (substituted : registry.substitute grammar = .ok substitution)
    (known : substitution.unknown = []) {tree : Tree}
    (built : Tree.ofLexemes substitution.items = .ok tree) :
    registry.outcome limit grammar = .ok true ↔
      ∀ inside ∈ tree.subtrees, ¬ inside.Exceeds limit := by
  rw [outcome_of_built substituted known built, ← Tree.excess?_eq_none]
  split
  · next found exceeded => simp [exceeded]
  · next bounded => simp [bounded]

end Registry

namespace Context

variable {context : Context} {grammar : String}

/-- An expansion has the outcome of its grammar: the variants of a tree can always be made. -/
theorem map_isStructured_expand (nonblank : (Text.trim grammar).isEmpty = false) :
    (context.expand grammar).map (·.isStructured) =
      context.registry.outcome context.limits.operands (Text.trim grammar) := by
  unfold expand Registry.outcome
  dsimp only
  rw [nonblank]
  cases substituted : context.registry.substitute (Text.trim grammar) with
  | error e => rfl
  | ok substitution =>
    obtain ⟨items, unknown⟩ := substitution
    cases unknown with
    | cons key keys => rfl
    | nil =>
      cases built : Tree.ofLexemes items with
      | error cause => simp [tree, built, bind, Except.bind, Except.map]
      | ok found =>
        cases exceeded : found.excess? context.limits.operands with
        | some operands => simp [tree, built, alternatives, exceeded, bind, Except.bind, Except.map]
        | none =>
          have settled := Registry.settledItems_of_substitute substituted rfl
          obtain ⟨variants, made⟩ := Variant.exists_ofPieces fun piece member =>
            Tree.exists_ofPiece? settled built context.limits member
          simp [tree, built, alternatives, exceeded, made, bind, Except.bind, pure, Except.pure,
            Except.map, Expansion.isStructured]

theorem expand_eq_error_iff (nonblank : (Text.trim grammar).isEmpty = false) {e : Error} :
    context.expand grammar = .error e ↔
      context.registry.outcome context.limits.operands (Text.trim grammar) = .error e := by
  rw [← map_isStructured_expand nonblank]
  cases context.expand grammar with
  | error e' => simp [Except.map]
  | ok expansion => simp [Except.map]

theorem exists_expand_iff (nonblank : (Text.trim grammar).isEmpty = false) {structured : Bool} :
    (∃ expansion, context.expand grammar = .ok expansion ∧ expansion.isStructured = structured) ↔
      context.registry.outcome context.limits.operands (Text.trim grammar) = .ok structured := by
  rw [← map_isStructured_expand nonblank]
  cases context.expand grammar with
  | error e' => simp [Except.map]
  | ok expansion => simp [Except.map]

/-- The operands of groups may as well be counted while the tree is expanded. -/
theorem alternatives_eq_counted (context : Context) (tree : Tree) :
    context.alternatives tree = tree.counted context.limits := by
  rw [Tree.counted_eq]
  rfl

/-! ### Main result -/

/-- A grammar that is not blank is refused as its substitution is. If it has one, it is left as it is
exactly for keys without a definition, and otherwise refused exactly for lexemes that make no tree or
for the first unordered group of the tree that has too many operands, which is found on the way as
well as beforehand. The variants of a tree can always be made, and the limits on variants and on
repetitions leave the outcome as it is. -/
theorem expand_outcome (nonblank : (Text.trim grammar).isEmpty = false) :
    (∀ e, context.registry.substitute (Text.trim grammar) = .error e →
      context.expand grammar = .error e ∧
        ((∃ cause, e = .malformed cause) ∨ ∃ key chain, e = .cyclicDefinition key chain)) ∧
    (∀ substitution, context.registry.substitute (Text.trim grammar) = .ok substitution →
      ((∃ expansion, context.expand grammar = .ok expansion ∧ expansion.isStructured = false) ↔
        substitution.unknown ≠ []) ∧
      (substitution.unknown = [] →
        (∀ cause, context.expand grammar = .error (.malformed cause) ↔
          Tree.ofLexemes substitution.items = .error cause) ∧
        ∀ tree, Tree.ofLexemes substitution.items = .ok tree →
          context.alternatives tree = tree.counted context.limits ∧
          (∀ operands limit, context.expand grammar = .error (.tooManyOperands operands limit) ↔
            limit = context.limits.operands ∧ ∃ combinator children,
              IsFirst (Tree.Exceeds limit) tree.subtrees (.group combinator children) ∧
                operands = children.length) ∧
          ((∃ expansion, context.expand grammar = .ok expansion ∧ expansion.isStructured = true) ↔
            ∀ inside ∈ tree.subtrees, ¬ inside.Exceeds context.limits.operands) ∧
          ∀ piece ∈ (tree.alternatives context.limits).pieces,
            ∃ found, Variant.ofPiece? piece = .ok found)) ∧
    ∀ limits : Limits, limits.operands = context.limits.operands →
      (({ context with limits := limits } : Context).expand grammar).map (·.isStructured) =
        (context.expand grammar).map (·.isStructured) := by
  simp only [expand_eq_error_iff nonblank, exists_expand_iff nonblank]
  refine ⟨fun e refused => ⟨?_, Registry.isOfSubstitution_of_substitute refused⟩,
    fun substitution substituted => ⟨Registry.outcome_eq_false_iff substituted, fun known =>
      ⟨fun cause => Registry.outcome_eq_malformed_iff substituted known, fun tree built =>
        ⟨alternatives_eq_counted context tree,
          fun operands limit => Registry.outcome_eq_tooMany_iff substituted known built,
          Registry.outcome_eq_true_iff substituted known built, fun piece member => ?_⟩⟩⟩,
    fun limits same => ?_⟩
  · unfold Registry.outcome
    rw [refused]
    rfl
  · have settled : context.registry.SettledItems substitution.items :=
      Registry.settledItems_of_substitute substituted known
    exact Tree.exists_ofPiece? settled built context.limits member
  · rw [map_isStructured_expand nonblank, map_isStructured_expand nonblank, same]

/-- A group of five operands is too large, also below a repetition that is allowed no times. -/
theorem expand_outcome_five_operands : ∃ substitution tree,
    (Text.trim "x [ a || b || c || d || e ]\x7b0\x7d").isEmpty = false ∧
      standard.registry.substitute (Text.trim "x [ a || b || c || d || e ]\x7b0\x7d") =
        .ok substitution ∧
      substitution.unknown = [] ∧ Tree.ofLexemes substitution.items = .ok tree ∧
      standard.expand "x [ a || b || c || d || e ]\x7b0\x7d" = .error (.tooManyOperands 5 4) := by
  have nonblank : (Text.trim "x [ a || b || c || d || e ]\x7b0\x7d").isEmpty = false := by
    decide +kernel
  have computed : (standard.registry.substitute
      (Text.trim "x [ a || b || c || d || e ]\x7b0\x7d")).toOption.any (fun substitution =>
        substitution.unknown.isEmpty && (Tree.ofLexemes substitution.items).toOption.any fun tree =>
          tree.excess? 4 == some 5) = true := by
    decide +kernel
  obtain ⟨substitution, substituted, checked⟩ := exists_ok_of_any computed
  obtain ⟨empty, trees⟩ := Bool.and_eq_true_iff.mp checked
  obtain ⟨tree, built, exceeded⟩ := exists_ok_of_any trees
  have known := List.isEmpty_iff.mp empty
  have first := Tree.excess?_eq_some.mp (beq_iff_eq.mp exceeded)
  obtain ⟨-, onTree⟩ := ((expand_outcome nonblank).2.1 substitution substituted).2 known
  exact ⟨substitution, tree, nonblank, substituted, known, built,
    ((onTree tree built).2.1 5 4).mpr ⟨rfl, first⟩⟩

end Context

end ValueGrammar
