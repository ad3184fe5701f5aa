import ValueGrammar.Proofs.Expansion.Derivation
import ValueGrammar.Proofs.Piece.Room

/-!
The cap on variants. An expansion has no more variants than the cap, and one that is not truncated
is the same under every greater cap: a cap shows in the variants that it cuts off or not at all.
-/
namespace ValueGrammar

variable {limits limits' : Limits}

/-! ### Trees -/

theorem Combinator.alternatives_of_le {combinator : Combinator} {operands : List (List Piece)}
    (atMost : limits.variants ≤ limits'.variants)
    (uncut : (combinator.alternatives limits operands).truncated = false) :
    combinator.alternatives limits' operands = combinator.alternatives limits operands := by
  have row (chosen : List (List Piece))
      (uncut : (Alternatives.product limits.variants none chosen).truncated = false) :=
    Alternatives.product_of_le atMost uncut
  cases combinator with
  | sequence => exact row operands uncut
  | list => exact Alternatives.product_of_le atMost uncut
  | choice =>
    exact congrArg Gathering.byLength (Gathering.collect_of_uncut atMost (fun _ _ => rfl) uncut)
  | someOf => exact congrArg Gathering.byLength (Gathering.collect_of_uncut atMost row uncut)
  | allOf => exact congrArg Gathering.byLength (Gathering.collect_of_uncut atMost row uncut)

theorem Multiplier.alternatives_of_le {m : Multiplier} {pieces : List Piece}
    (atMost : limits.variants ≤ limits'.variants) (same : limits'.repetitions = limits.repetitions)
    (uncut : (m.alternatives limits pieces).truncated = false) :
    m.alternatives limits' pieces = m.alternatives limits pieces := by
  rw [alternatives_eq_collect] at uncut
  rw [alternatives_eq_collect, alternatives_eq_collect, same]
  exact congrArg Gathering.inOrder
    (Gathering.collect_of_uncut atMost (fun _ => Alternatives.product_of_le atMost) uncut)

theorem Combinator.length_alternatives_le (room : 1 ≤ limits.variants) (combinator : Combinator)
    (operands : List (List Piece)) :
    (combinator.alternatives limits operands).pieces.length ≤ limits.variants := by
  cases combinator with
  | sequence => exact Alternatives.length_product_le room none operands
  | list => exact Alternatives.length_product_le room (some .comma) operands
  | choice => exact ((Gathering.within_empty _).collect _).length_byLength
  | someOf => exact ((Gathering.within_empty _).collect _).length_byLength
  | allOf => exact ((Gathering.within_empty _).collect _).length_byLength

namespace Tree

/-- A tree has no more pieces than the cap allows. -/
theorem length_alternatives_le (room : 1 ≤ limits.variants) (tree : Tree) :
    (tree.alternatives limits).pieces.length ≤ limits.variants := by
  cases tree with
  | token text => exact room
  | separator s => exact room
  | group combinator children => exact combinator.length_alternatives_le room _
  | repeated body m =>
    rw [alternatives, Multiplier.alternatives_eq_collect]
    exact ((Gathering.within_empty _).collect _).length_inOrder

mutual

/-- A tree that is not cut off has the same pieces under a greater cap. -/
theorem alternatives_of_le (atMost : limits.variants ≤ limits'.variants)
    (same : limits'.repetitions = limits.repetitions) :
    ∀ tree : Tree, (tree.alternatives limits).truncated = false →
      tree.alternatives limits' = tree.alternatives limits
  | token text, _ => rfl
  | separator s, _ => rfl
  | group combinator children, uncut => by
    simp only [alternatives, Bool.or_eq_false_iff, List.any_eq_false, Bool.not_eq_true] at uncut
    obtain ⟨uncutOperands, own⟩ := uncut
    simp only [alternatives, childAlternatives_of_le atMost same children uncutOperands,
      Combinator.alternatives_of_le atMost own]
  | repeated body m, uncut => by
    simp only [alternatives, Bool.or_eq_false_iff] at uncut
    obtain ⟨uncutBody, own⟩ := uncut
    simp only [alternatives, alternatives_of_le atMost same body uncutBody,
      Multiplier.alternatives_of_le atMost same own]

theorem childAlternatives_of_le (atMost : limits.variants ≤ limits'.variants)
    (same : limits'.repetitions = limits.repetitions) :
    ∀ children : List Tree,
      (∀ operand ∈ childAlternatives limits children, operand.truncated = false) →
        childAlternatives limits' children = childAlternatives limits children
  | [], _ => rfl
  | child :: children, uncut => by
    rw [childAlternatives, childAlternatives,
      alternatives_of_le atMost same child (uncut _ List.mem_cons_self),
      childAlternatives_of_le atMost same children fun operand member =>
        uncut operand (List.mem_cons_of_mem _ member)]

end

end Tree

/-! ### Expansions -/

theorem Variant.length_le_of_ofPieces {pieces : List Piece} {variants : List Variant}
    (built : ofPieces pieces = .ok variants) : variants.length ≤ pieces.length := by
  induction pieces generalizing variants with
  | nil =>
    cases built
    exact Nat.le_refl 0
  | cons piece pieces ih =>
    obtain ⟨first, -, behind⟩ := bind_eq_ok.mp built
    obtain ⟨others, later, made⟩ := bind_eq_ok.mp behind
    cases made
    have atMost := ih later
    have one := Option.length_toList_le (o := first)
    rw [List.length_append, List.length_cons]
    omega

def Context.withCap (context : Context) (cap : Nat) : Context :=
  { context with limits := { context.limits with variants := cap } }

variable {context : Context} {grammar : String} {expansion : Expansion}

/-- What is derived without truncation is derived in the same way under every greater cap. -/
theorem Derivation.withCap {items : List Lexeme} {tree : Tree}
    (derivation : Derivation context grammar expansion items tree)
    (whole : expansion.truncated = false) {cap : Nat} (atMost : context.limits.variants ≤ cap) :
    Derivation (context.withCap cap) grammar expansion items tree := by
  have uncut : (tree.alternatives context.limits).truncated = false := by
    rw [← derivation.truncated]
    exact whole
  have wider : tree.alternatives (context.withCap cap).limits =
      tree.alternatives context.limits := by
    apply Tree.alternatives_of_le
    · exact atMost
    · rfl
    · exact uncut
  refine { derivation with variants := ?_, truncated := ?_ }
  · rw [wider]
    exact derivation.variants
  · rw [wider]
    exact derivation.truncated

namespace Context

theorem expand_of_blank (context : Context) (blank : (Text.trim grammar).isEmpty = true) :
    context.expand grammar = .ok Expansion.blank := by
  unfold expand
  exact if_pos blank

/-- A grammar is left as it is for the keys without a definition, under all limits. -/
theorem expand_unstructured_iff (nonblank : (Text.trim grammar).isEmpty = false) :
    (context.expand grammar = .ok expansion ∧ expansion.isStructured = false) ↔
      ∃ substitution, context.registry.substitute (Text.trim grammar) = .ok substitution ∧
        substitution.unknown ≠ [] ∧
          expansion = Expansion.unstructured (Text.trim grammar) substitution.unknown := by
  have solid : ¬ (Text.trim grammar).isEmpty = true := by simp [nonblank]
  unfold expand
  rw [if_neg solid]
  constructor
  · intro given
    obtain ⟨expanded, unstructured⟩ := given
    obtain ⟨substitution, substituted, rest⟩ := bind_eq_ok.mp expanded
    refine ⟨substitution, substituted, ?_⟩
    by_cases known : substitution.unknown = []
    · rw [known] at rest
      obtain ⟨tree, -, rest⟩ := bind_eq_ok.mp rest
      obtain ⟨found, -, rest⟩ := bind_eq_ok.mp rest
      obtain ⟨variants, -, rest⟩ := bind_eq_ok.mp rest
      cases rest
      cases unstructured
    · have noted : (!substitution.unknown.isEmpty) = true := by simp [known]
      rw [if_pos noted] at rest
      cases rest
      exact ⟨known, rfl⟩
  · intro given
    obtain ⟨substitution, substituted, unknown, rfl⟩ := given
    have noted : (!substitution.unknown.isEmpty) = true := by simp [unknown]
    refine ⟨bind_eq_ok.mpr ⟨substitution, substituted, ?_⟩, ?_⟩
    · rw [if_pos noted]
      rfl
    · simpa [Expansion.isStructured, Expansion.unstructured] using unknown

/-! ### Main result -/

/-- Under a cap of one or more an expansion has no more variants than the cap. If none have been left
out, every greater cap gives the same expansion: the same variants in the same order, none left
out. -/
theorem expand_within_cap (room : 1 ≤ context.limits.variants)
    (expanded : context.expand grammar = .ok expansion) :
    expansion.variants.length ≤ context.limits.variants ∧
      (expansion.truncated = false → ∀ cap, context.limits.variants ≤ cap →
        (context.withCap cap).expand grammar = .ok expansion) := by
  cases blank : (Text.trim grammar).isEmpty with
  | true =>
    rw [expand_of_blank context blank] at expanded
    cases expanded
    exact ⟨Nat.zero_le _, fun _ cap _ => expand_of_blank _ blank⟩
  | false =>
    cases structured : expansion.isStructured with
    | true =>
      obtain ⟨items, tree, derivation⟩ := exists_derivation expanded structured
      have made := Variant.length_le_of_ofPieces derivation.variants
      have capped := tree.length_alternatives_le room
      exact ⟨Nat.le_trans made capped, fun whole cap atMost =>
        (derivation.withCap whole atMost).expand blank⟩
    | false =>
      have described := (expand_unstructured_iff blank).mp ⟨expanded, structured⟩
      refine ⟨?_, fun _ cap _ => ?_⟩
      · obtain ⟨substitution, -, -, rfl⟩ := described
        exact room
      · have again : (context.withCap cap).expand grammar = .ok expansion ∧
            expansion.isStructured = false := (expand_unstructured_iff blank).mpr described
        exact again.1

/-- Three variants under a cap of three; a variant that is met twice takes no room. -/
theorem expand_within_cap_three : ∃ expansion,
    1 ≤ (standard.withCap 3).limits.variants ∧
      (standard.withCap 3).expand "thin | [ medium | medium ] | thick" = .ok expansion ∧
      expansion.truncated = false ∧ expansion.variants.length ≤ 3 ∧
      ∀ cap, 3 ≤ cap → ((standard.withCap 3).withCap cap).expand
        "thin | [ medium | medium ] | thick" = .ok expansion := by
  have computed : ((standard.withCap 3).expand
      "thin | [ medium | medium ] | thick").toOption.any (fun expansion => !expansion.truncated) =
        true := by decide +kernel
  obtain ⟨expansion, expanded, whole⟩ := exists_ok_of_any computed
  have uncut : expansion.truncated = false := by simpa using whole
  have room : 1 ≤ (standard.withCap 3).limits.variants := by decide
  obtain ⟨atMost, same⟩ := expand_within_cap room expanded
  exact ⟨expansion, room, expanded, uncut, atMost, same uncut⟩

end Context

end ValueGrammar
