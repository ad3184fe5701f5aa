import ValueGrammar.Expansion
import ValueGrammar.Proofs.Registry.Settled
import ValueGrammar.Proofs.Tree.Leaves
import ValueGrammar.Proofs.Tree.Readings

/-!
How the expansion of a grammar comes about. A structured expansion has a derivation: the items
that substitution leaves, their tree, and the variants of the pieces of the tree. The tokens of the
tree are items, so they are settled.
-/
namespace ValueGrammar

/-! ### Variants of pieces -/

namespace Variant

def shape (variant : Variant) : List String × List Separator :=
  (variant.places.map (·.token), variant.separators)

theorem token_of_ofToken {token : String} {place : Place} (made : Place.ofToken token = .ok place) :
    place.token = token := by
  unfold Place.ofToken at made
  cases parsed : Reference.parse token with
  | error e =>
    rw [parsed] at made
    cases made
  | ok reference =>
    rw [parsed] at made
    cases made
    rfl

/-- A variant that is read off its tokens is determined by its shape. -/
theorem eq_of_shape {variant other : Variant}
    (read : ∀ place ∈ variant.places, Place.ofToken place.token = .ok place)
    (readOther : ∀ place ∈ other.places, Place.ofToken place.token = .ok place)
    (same : variant.shape = other.shape) : variant = other := by
  have tokens : variant.places.map (·.token) = other.places.map (·.token) := congrArg Prod.fst same
  have places : variant.places.map (Except.ok (ε := Error)) = other.places.map Except.ok :=
    calc variant.places.map (Except.ok (ε := Error))
        = (variant.places.map (·.token)).map Place.ofToken := by
          rw [List.map_map]
          exact List.map_congr_left fun place member => (read place member).symm
      _ = (other.places.map (·.token)).map Place.ofToken := by rw [tokens]
      _ = other.places.map Except.ok := by
          rw [List.map_map]
          exact List.map_congr_left readOther
  have injective : Function.Injective (Except.ok (ε := Error) (α := Place)) :=
    fun _ _ eq => Except.ok.inj eq
  have separators : variant.separators = other.separators := congrArg Prod.snd same
  obtain ⟨variantPlaces, variantSeparators⟩ := variant
  obtain ⟨otherPlaces, otherSeparators⟩ := other
  rw [Variant.mk.injEq]
  exact ⟨List.map_injective_iff.mpr injective places, separators⟩

/-- A variant comes from a piece if its places are those of the tokens of the piece. -/
theorem ofPiece?_eq_some {piece : Piece} {variant : Variant} :
    ofPiece? piece = .ok (some variant) ↔
      piece.normalize.1 ≠ [] ∧ variant.separators = piece.normalize.2 ∧
        List.Forall₂ (fun token place => Place.ofToken token = .ok place) piece.normalize.1
          variant.places := by
  unfold ofPiece?
  dsimp only
  by_cases empty : piece.normalize.1 = []
  · rw [if_pos (List.isEmpty_iff.mpr empty)]
    constructor
    · intro h
      cases h
    · intro h
      exact absurd empty h.1
  · rw [if_neg fun none => empty (List.isEmpty_iff.mp none)]
    cases made : piece.normalize.1.mapM Place.ofToken with
    | error e =>
      constructor
      · intro h
        cases h
      · intro h
        have := mapM_eq_ok.mpr h.2.2
        rw [made] at this
        cases this
    | ok places =>
      constructor
      · intro h
        cases h
        exact ⟨empty, rfl, mapM_eq_ok.mp made⟩
      · intro given
        obtain ⟨-, separators, tokens⟩ := given
        have := mapM_eq_ok.mpr tokens
        rw [made] at this
        cases this
        exact congrArg (fun s => Except.ok (some (Variant.mk variant.places s))) separators.symm

theorem shape_of_ofPiece? {piece : Piece} {variant : Variant}
    (made : ofPiece? piece = .ok (some variant)) : variant.shape = piece.normalize := by
  obtain ⟨-, separators, tokens⟩ := ofPiece?_eq_some.mp made
  have same : variant.places.map (·.token) = piece.normalize.1 := by
    have tokenwise : List.Forall₂ (fun place token => place.token = token) variant.places
        piece.normalize.1 := (tokens.imp fun _ _ made => token_of_ofToken made).flip
    rw [← List.forall₂_eq_eq_eq, List.forall₂_map_left_iff]
    exact tokenwise
  exact Prod.ext same separators

theorem ofPieces_eq_ok {pieces : List Piece} {variants : List Variant} :
    ofPieces pieces = .ok variants ↔
      ∃ made, List.Forall₂ (fun piece found => ofPiece? piece = .ok found) pieces made ∧
        variants = made.flatMap Option.toList := by
  induction pieces generalizing variants with
  | nil =>
    constructor
    · intro h
      cases h
      exact ⟨[], .nil, rfl⟩
    · intro given
      obtain ⟨made, none, rfl⟩ := given
      cases none
      rfl
  | cons piece pieces ih =>
    constructor
    · intro h
      obtain ⟨first, here, behind⟩ := bind_eq_ok.mp h
      obtain ⟨others, later, eq⟩ := bind_eq_ok.mp behind
      obtain ⟨made, each, rfl⟩ := ih.mp later
      cases eq
      exact ⟨first :: made, .cons here each, by simp⟩
    · intro given
      obtain ⟨made, each, rfl⟩ := given
      cases each with
      | cons here others =>
        have later := ih.mpr ⟨_, others, rfl⟩
        exact bind_eq_ok.mpr ⟨_, here, bind_eq_ok.mpr ⟨_, later, by simp; rfl⟩⟩

theorem mem_ofPieces {pieces : List Piece} {variants : List Variant}
    (built : ofPieces pieces = .ok variants) {variant : Variant} :
    variant ∈ variants ↔ ∃ piece ∈ pieces, ofPiece? piece = .ok (some variant) := by
  obtain ⟨made, each, rfl⟩ := ofPieces_eq_ok.mp built
  simp only [List.mem_flatMap, Option.mem_toList]
  constructor
  · intro given
    obtain ⟨found, member, some⟩ := given
    obtain ⟨piece, inside, eq⟩ := exists_mem_of_forall₂ each.flip member
    subst some
    exact ⟨piece, inside, eq⟩
  · intro given
    obtain ⟨piece, inside, eq⟩ := given
    obtain ⟨found, member, eq'⟩ := exists_mem_of_forall₂ each inside
    rw [eq] at eq'
    cases eq'
    exact ⟨_, member, rfl⟩

/-- Every piece with a token has its variant. -/
theorem exists_of_mem {pieces : List Piece} {variants : List Variant}
    (built : ofPieces pieces = .ok variants) {piece : Piece} (member : piece ∈ pieces)
    (nonempty : piece.normalize.1 ≠ []) : ∃ variant ∈ variants, variant.shape = piece.normalize := by
  obtain ⟨made, each, rfl⟩ := ofPieces_eq_ok.mp built
  obtain ⟨found, inside, eq⟩ := exists_mem_of_forall₂ each member
  cases found with
  | none =>
    unfold ofPiece? at eq
    dsimp only at eq
    rw [if_neg fun none => nonempty (List.isEmpty_iff.mp none)] at eq
    cases places : piece.normalize.1.mapM Place.ofToken with
    | error e =>
      rw [places] at eq
      cases eq
    | ok places' =>
      rw [places] at eq
      cases eq
  | some variant =>
    exact ⟨variant, List.mem_flatMap.mpr ⟨_, inside, by simp⟩, shape_of_ofPiece? eq⟩

end Variant

/-! ### Derivations -/

/-- How a structured expansion comes about. -/
structure Derivation (context : Context) (grammar : String) (expansion : Expansion)
    (items : List Lexeme) (tree : Tree) : Prop where
  substituted : context.registry.substitute (Text.trim grammar) = .ok ⟨items, []⟩
  built : Tree.ofLexemes items = .ok tree
  bounded : tree.excess? context.limits.operands = none
  variants : Variant.ofPieces (tree.alternatives context.limits).pieces = .ok expansion.variants
  truncated : expansion.truncated = (tree.alternatives context.limits).truncated
  grammar : expansion.grammar = Text.trim grammar
  unknown : expansion.unknown = []

/-- A blank grammar is read as a sequence of nothing. -/
theorem derivation_blank (context : Context) {grammar : String}
    (blank : (Text.trim grammar).isEmpty = true) :
    Derivation context grammar Expansion.blank [] (.group .sequence []) := by
  have empty : Text.trim grammar = "" := String.isEmpty_iff.mp blank
  have lexed : Lexeme.ofGrammar "" = .ok [] :=
    Lexeme.ofGrammar_eq_ok.mpr Lexeme.readAll_nil
  constructor
  · rw [empty]
    exact Registry.substitute_of_settled lexed fun text member => by cases member
  · have sound : ∀ part ∈ ([] : List Tree.Part), part.core.IsSound := by simp
    exact Tree.ofBalanced_sequence sound .nil
  · rfl
  · rfl
  · rfl
  · rw [empty]
    rfl
  · rfl

theorem tree_eq_ok {items : List Lexeme} {tree : Tree} :
    Context.tree items = .ok tree ↔ Tree.ofLexemes items = .ok tree := by
  unfold Context.tree
  cases Tree.ofLexemes items with
  | ok built =>
    constructor
    · intro h
      cases h
      rfl
    · intro h
      cases h
      rfl
  | error cause =>
    constructor
    · intro h
      cases h
    · intro h
      cases h

theorem alternatives_eq_ok {context : Context} {tree : Tree} {found : Alternatives} :
    context.alternatives tree = .ok found ↔
      tree.excess? context.limits.operands = none ∧ found = tree.alternatives context.limits := by
  unfold Context.alternatives
  cases tree.excess? context.limits.operands with
  | none =>
    constructor
    · intro h
      cases h
      exact ⟨rfl, rfl⟩
    · intro h
      rw [h.2]
  | some operands =>
    constructor
    · intro h
      cases h
    · intro h
      cases h.1

theorem exists_derivation {context : Context} {grammar : String} {expansion : Expansion}
    (expanded : context.expand grammar = .ok expansion)
    (structured : expansion.isStructured = true) :
    ∃ items tree, Derivation context grammar expansion items tree := by
  unfold Context.expand at expanded
  by_cases blank : (Text.trim grammar).isEmpty = true
  · rw [if_pos blank] at expanded
    cases expanded
    exact ⟨_, _, derivation_blank context blank⟩
  · rw [if_neg blank] at expanded
    obtain ⟨⟨items, unknown⟩, substituted, rest⟩ := bind_eq_ok.mp expanded
    by_cases known : unknown = []
    · subst known
      obtain ⟨tree, read, rest⟩ := bind_eq_ok.mp rest
      obtain ⟨found, gathered, rest⟩ := bind_eq_ok.mp rest
      obtain ⟨variants, made, rest⟩ := bind_eq_ok.mp rest
      cases rest
      obtain ⟨bounded, rfl⟩ := alternatives_eq_ok.mp gathered
      exact ⟨items, tree, substituted, tree_eq_ok.mp read, bounded, made, rfl, rfl, rfl⟩
    · have noted : (!unknown.isEmpty) = true := by simp [known]
      dsimp only at rest
      rw [if_pos noted] at rest
      cases rest
      rw [Expansion.isStructured] at structured
      exact absurd (List.isEmpty_iff.mp structured) known

namespace Derivation

variable {context : Context} {grammar : String} {expansion : Expansion} {items : List Lexeme}
  {tree : Tree}

/-- The derivation of a grammar that is not blank shows its expansion. -/
theorem expand (derivation : Derivation context grammar expansion items tree)
    (nonblank : (Text.trim grammar).isEmpty = false) :
    context.expand grammar = .ok expansion := by
  unfold Context.expand
  have solid : ¬ (Text.trim grammar).isEmpty = true := by simp [nonblank]
  rw [if_neg solid]
  refine bind_eq_ok.mpr ⟨_, derivation.substituted, ?_⟩
  refine bind_eq_ok.mpr ⟨tree, tree_eq_ok.mpr derivation.built, ?_⟩
  refine bind_eq_ok.mpr ⟨_, alternatives_eq_ok.mpr ⟨derivation.bounded, rfl⟩, ?_⟩
  refine bind_eq_ok.mpr ⟨_, derivation.variants, ?_⟩
  rw [← derivation.truncated, ← derivation.grammar, ← derivation.unknown]
  rfl

theorem settled (derivation : Derivation context grammar expansion items tree) :
    context.registry.SettledItems items :=
  Registry.settledItems_of_substitute derivation.substituted rfl

/-- The tokens of a reading are settled. -/
theorem settled_of_mem_readings (derivation : Derivation context grammar expansion items tree)
    {limit : Nat} {piece : Piece} (member : piece ∈ tree.readings limit) {text : String}
    (inside : .token text ∈ piece) : context.registry.Settled text := by
  have leaf := Tree.leaves_of_mem_readings member inside
  exact derivation.settled text (Tree.isLexeme_of_mem_leaves derivation.built _ leaf)

end Derivation

end ValueGrammar
