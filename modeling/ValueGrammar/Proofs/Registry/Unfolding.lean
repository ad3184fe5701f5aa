import ValueGrammar.Proofs.Registry.Grouping

/-!
What a grammar leads to. Composed references are followed through their definitions, from left to
right and depth first, down to the references that stay. Substitution writes these in this order,
narrowed by the ranges on the way to them, and collects the keys of those without a definition.
-/
namespace ValueGrammar

/-! ### Leaves -/

def Reference.isTyped : Reference → Bool
  | typed _ _ => true
  | _ => false

/-- The ranges that references inside each other, the innermost one first, put on what is inside all
of them. Functions take no ranges, so what is outside of a function has no say. -/
def Reference.handed (way : List Reference) : List Range :=
  (way.takeWhile isTyped).flatMap ranges

/-- A reference that a grammar leads to. -/
structure Leaf where
  /-- The reference as it is written. -/
  reference : Reference
  /-- The composed references that it stands behind, the innermost one first. -/
  way : List Reference

namespace Leaf

/-- The ranges of a leaf: its own, then those handed down to it from the innermost outwards. -/
def ranges (leaf : Leaf) : List Range :=
  Reference.handed (leaf.reference :: leaf.way)

/-- The reference that substitution writes for a leaf. -/
def narrowed (leaf : Leaf) : Reference :=
  leaf.reference.narrowedBy (Reference.handed leaf.way)

theorem ranges_narrowedBy (reference : Reference) (way : List Reference) :
    (reference.narrowedBy (Reference.handed way)).ranges = Reference.handed (reference :: way) := by
  cases reference <;> rfl

theorem ranges_narrowed (leaf : Leaf) : leaf.narrowed.ranges = leaf.ranges :=
  ranges_narrowedBy leaf.reference leaf.way

theorem key_narrowed (leaf : Leaf) : leaf.narrowed.key = leaf.reference.key :=
  Reference.key_narrowedBy leaf.reference _

/-- A typed leaf has its own ranges in front of those handed down to it; other leaves have none. -/
theorem ranges_eq (leaf : Leaf) :
    leaf.ranges =
      if leaf.reference.isTyped then leaf.reference.ranges ++ Reference.handed leaf.way else [] := by
  obtain ⟨reference, way⟩ := leaf
  cases reference <;> rfl

end Leaf

def Lexeme.tokens (items : List Lexeme) : List String :=
  items.filterMap fun
    | .token text => some text
    | _ => none

theorem Lexeme.tokens_append (xs ys : List Lexeme) : tokens (xs ++ ys) = tokens xs ++ tokens ys :=
  List.filterMap_append

theorem Lexeme.mem_tokens {items : List Lexeme} {text : String} :
    text ∈ tokens items ↔ .token text ∈ items := by
  rw [tokens, List.mem_filterMap]
  constructor
  · intro given
    obtain ⟨x, member, same⟩ := given
    cases x with
    | token text' =>
      cases same
      exact member
    | _ => cases same
  · intro member
    exact ⟨_, member, rfl⟩

theorem Lexeme.tokens_enclose (items : List Lexeme) :
    tokens (Substitution.enclose items) = tokens items := by
  unfold Substitution.enclose
  split
  · change tokens (([.opening] ++ items) ++ [.closing]) = _
    rw [tokens_append, tokens_append]
    exact List.append_nil _
  · rfl

namespace Registry

/-! ### Kinds of references -/

variable {registry : Registry}

theorem isUndefined_narrowedBy (reference : Reference) (ranges : List Range) :
    registry.isUndefined (reference.narrowedBy ranges) = registry.isUndefined reference := by
  rw [isUndefined, Reference.isKeyword_narrowedBy, Reference.key_narrowedBy, isUndefined]

theorem Composed.not_undefined {reference : Reference} {definition : Definition}
    (composed : registry.Composed reference definition) : registry.isUndefined reference = false := by
  simp [isUndefined, contains, composed.found]

theorem not_undefined_of_isFinal {reference : Reference}
    (final : registry.isFinal reference = true) : registry.isUndefined reference = false := by
  cases found : registry.find? reference.key <;> simp_all [isFinal, isUndefined, contains]

/-- A reference that stands for no definition stays; its key is noted if it has none. -/
theorem replace_of_stays {reference : Reference}
    (stays : ∀ definition, ¬ registry.Composed reference definition) (chain unknown : List String) :
    registry.replace chain reference unknown =
      .ok (Substitution.keep reference (if registry.isUndefined reference = true then
        Substitution.note unknown reference.key else unknown)) := by
  rw [replace]
  cases named : reference.isKeyword with
  | true => simp [isUndefined, named]
  | false =>
    simp only [Bool.false_eq_true, if_false]
    split
    · next none => simp [isUndefined, named, contains, none]
    · next definition found =>
      cases replaced : definition.isPrimitive with
      | true => simp [isUndefined, contains, found]
      | false => exact absurd ⟨named, found, replaced⟩ (stays definition)

/-- A definition that is open cannot be opened again. -/
theorem Composed.replace_of_mem {reference : Reference} {definition : Definition}
    (composed : registry.Composed reference definition) {chain : List String}
    (onChain : reference.key ∈ chain) (unknown : List String) :
    registry.replace chain reference unknown =
      .error (.cyclicDefinition reference.key (chain ++ [reference.key])) := by
  have notKeyword : ¬ reference.isKeyword = true := by simp [composed.named]
  have notPrimitive : ¬ definition.isPrimitive = true := by simp [composed.replaced]
  rw [replace, if_neg notKeyword]
  dsimp only
  split
  · next none =>
    rw [composed.found] at none
    cases none
  · next definition' found =>
    rw [composed.found] at found
    cases found
    rw [if_neg notPrimitive, dif_pos onChain]

/-! ### Unfolding -/

/-- A walk along a run, from left to right and depth first, through the definitions of composed
references down to the leaves. -/
inductive Unfolds (registry : Registry) : List Reference → List Lexeme → List Leaf → Prop
  | nil (way : List Reference) : Unfolds registry way [] []
  | other {way : List Reference} {x : Lexeme} {rest : List Lexeme} {leaves : List Leaf}
      (plain : ∀ text, x ≠ .token text) (later : Unfolds registry way rest leaves) :
      Unfolds registry way (x :: rest) leaves
  | kept {way : List Reference} {text : String} {reference : Reference} {rest : List Lexeme}
      {leaves : List Leaf} (parsed : Reference.parse text = .ok reference)
      (stays : ∀ definition, ¬ registry.Composed reference definition)
      (later : Unfolds registry way rest leaves) :
      Unfolds registry way (.token text :: rest) (⟨reference, way⟩ :: leaves)
  | opened {way : List Reference} {text : String} {reference : Reference} {definition : Definition}
      {inner rest : List Lexeme} {leaves leaves' : List Leaf}
      (parsed : Reference.parse text = .ok reference)
      (composed : registry.Composed reference definition)
      (lexed : Lexeme.ofGrammar definition.grammar = .ok inner)
      (inside : Unfolds registry (reference :: way) inner leaves)
      (later : Unfolds registry way rest leaves') :
      Unfolds registry way (.token text :: rest) (leaves ++ leaves')

/-- A run leads to its leaves in one way only. -/
theorem Unfolds.unique {way : List Reference} {items : List Lexeme} {leaves leaves' : List Leaf}
    (unfolds : registry.Unfolds way items leaves) (other : registry.Unfolds way items leaves') :
    leaves' = leaves := by
  induction unfolds generalizing leaves' with
  | nil =>
    cases other
    rfl
  | other plain _ ih =>
    cases other with
    | other _ later' => exact ih later'
    | _ => exact absurd rfl (plain _)
  | kept parsed stays _ ih =>
    cases other with
    | other plain => exact absurd rfl (plain _)
    | kept parsed' _ later' =>
      rw [parsed] at parsed'
      cases parsed'
      rw [ih later']
    | opened parsed' composed _ _ _ =>
      rw [parsed] at parsed'
      cases parsed'
      exact absurd composed (stays _)
  | opened parsed composed lexed _ _ ihInside ihLater =>
    cases other with
    | other plain => exact absurd rfl (plain _)
    | kept parsed' stays _ =>
      rw [parsed] at parsed'
      cases parsed'
      exact absurd composed (stays _)
    | opened parsed' composed' lexed' inside' later' =>
      rw [parsed] at parsed'
      cases parsed'
      cases composed.unique composed'
      rw [lexed] at lexed'
      cases lexed'
      rw [ihInside inside', ihLater later']

def undefinedKeys (registry : Registry) (leaves : List Leaf) : List String :=
  (leaves.filter fun leaf => registry.isUndefined leaf.reference).map (·.reference.key)

/-- A substitution that writes the leaves in order and notes which of them have no definition. -/
structure Writes (registry : Registry) (unknown : List String) (leaves : List Leaf)
    (result : Substitution) : Prop where
  tokens : Lexeme.tokens result.items = leaves.map (·.narrowed.text)
  unknown : result.unknown = (registry.undefinedKeys leaves).foldl Substitution.note unknown

theorem writes_other {x : Lexeme} (plain : ∀ text, x ≠ .token text) (unknown : List String) :
    registry.Writes unknown [] ⟨[x], unknown⟩ where
  tokens := by
    cases x with
    | token text => exact absurd rfl (plain text)
    | _ => rfl
  unknown := rfl

theorem writes_kept (leaf : Leaf) (final : registry.isFinal leaf.narrowed = true)
    (unknown : List String) :
    registry.Writes unknown [leaf] (Substitution.keep leaf.narrowed unknown) where
  tokens := rfl
  unknown := by
    have defined : registry.isUndefined leaf.reference = false := by
      rw [← isUndefined_narrowedBy leaf.reference (Reference.handed leaf.way)]
      exact not_undefined_of_isFinal final
    simp [undefinedKeys, defined, Substitution.keep]

theorem writes_noted (leaf : Leaf) (undefined : registry.isUndefined leaf.narrowed = true)
    (unknown : List String) :
    registry.Writes unknown [leaf]
      (Substitution.keep leaf.narrowed (Substitution.note unknown leaf.narrowed.key)) where
  tokens := rfl
  unknown := by
    have noted : registry.isUndefined leaf.reference = true := by
      rw [← isUndefined_narrowedBy leaf.reference (Reference.handed leaf.way)]
      exact undefined
    simp [undefinedKeys, noted, Substitution.keep, Leaf.key_narrowed]

theorem Writes.enclose {unknown : List String} {leaves : List Leaf} {inner : Substitution}
    (writes : registry.Writes unknown leaves inner) :
    registry.Writes unknown leaves ⟨Substitution.enclose inner.items, inner.unknown⟩ where
  tokens := by rw [Lexeme.tokens_enclose, writes.tokens]
  unknown := writes.unknown

theorem Writes.followedBy {unknown : List String} {leaves leaves' : List Leaf}
    {front back : Substitution} (writes : registry.Writes unknown leaves front)
    (writes' : registry.Writes front.unknown leaves' back) :
    registry.Writes unknown (leaves ++ leaves') (front.followedBy back) where
  tokens := by
    rw [Substitution.followedBy, Lexeme.tokens_append, writes.tokens, writes'.tokens, List.map_append]
  unknown := by
    rw [Substitution.followedBy, writes'.unknown, writes.unknown, undefinedKeys, undefinedKeys,
      undefinedKeys, List.filter_append, List.map_append, List.foldl_append]

/-- The substitution of a run is written for the leaves that the run leads to. -/
theorem Substitutes.exists_unfolds {ranges : List Range} {items : List Lexeme}
    {unknown : List String} {result : Substitution}
    (substitutes : registry.Substitutes ranges items unknown result) (way : List Reference)
    (handed : ranges = Reference.handed way) :
    ∃ leaves, registry.Unfolds way items leaves ∧ registry.Writes unknown leaves result := by
  induction substitutes generalizing way with
  | nothing ranges unknown => exact ⟨[], .nil way, rfl, rfl⟩
  | plain plain _ ih =>
    obtain ⟨leaves, unfolds, writes⟩ := ih way handed
    exact ⟨leaves, .other plain unfolds, (writes_other plain _).followedBy writes⟩
  | @kept ranges raw reference rest unknown tail parsed final _ ih =>
    obtain ⟨leaves, unfolds, writes⟩ := ih way handed
    subst handed
    have stays : ∀ definition, ¬ registry.Composed reference definition := fun definition composed => by
      rw [(composed_narrowedBy.mpr composed).not_final] at final
      cases final
    exact ⟨⟨reference, way⟩ :: leaves, .kept parsed stays unfolds,
      (writes_kept ⟨reference, way⟩ final unknown).followedBy writes⟩
  | @noted ranges raw reference rest unknown tail parsed undefined _ ih =>
    obtain ⟨leaves, unfolds, writes⟩ := ih way handed
    subst handed
    have stays : ∀ definition, ¬ registry.Composed reference definition := fun definition composed => by
      rw [(composed_narrowedBy.mpr composed).not_undefined] at undefined
      cases undefined
    exact ⟨⟨reference, way⟩ :: leaves, .kept parsed stays unfolds,
      (writes_noted ⟨reference, way⟩ undefined unknown).followedBy writes⟩
  | @opened ranges raw reference definition inside rest unknown inner tail parsed composed lexed _ _
      within later =>
    obtain ⟨leaves, unfolds, writes⟩ := later way handed
    subst handed
    obtain ⟨deeper, unfoldsDeeper, writesDeeper⟩ := within _ (Leaf.ranges_narrowedBy reference way)
    exact ⟨deeper ++ leaves,
      .opened parsed (composed_narrowedBy.mp composed) lexed unfoldsDeeper unfolds,
      writesDeeper.enclose.followedBy writes⟩

/-- A substitution unfolds its grammar, and is written for the leaves. -/
theorem exists_unfolds_of_substitute {grammar : String} {substitution : Substitution}
    (substituted : registry.substitute grammar = .ok substitution) :
    ∃ items leaves, Lexeme.ofGrammar grammar = .ok items ∧ registry.Unfolds [] items leaves ∧
      registry.Writes [] leaves substitution := by
  obtain ⟨items, lexed, walked⟩ := bind_eq_ok.mp substituted
  obtain ⟨leaves, unfolds, writes⟩ := (substitutes_of_walk walked).exists_unfolds [] rfl
  exact ⟨items, leaves, lexed, unfolds, writes⟩

end Registry

end ValueGrammar
