import ValueGrammar.Proofs.Expansion.Flattening
import ValueGrammar.Proofs.Expansion.GroupOrder
import ValueGrammar.Proofs.Expansion.Permutation
import ValueGrammar.Proofs.Expansion.Undefined
import ValueGrammar.Proofs.Piece.Overflow

/-!
Choices that are cut off. The alternatives of a choice are cut in the order in which they are written,
and only what is left is put in order of length. So the first variants are kept, which are the simplest
ones only if no shorter one is written behind a longer one.
-/
namespace ValueGrammar

/-! ### Variants piece by piece -/

namespace Variant

variable {pieces : List Piece} {variants : List Variant} {piece other : Piece} {variant : Variant}

def made? (piece : Piece) : Option Variant :=
  (ofPiece? piece).toOption.join

theorem made?_eq_some : made? piece = some variant ↔ ofPiece? piece = .ok (some variant) := by
  unfold made?
  cases ofPiece? piece with
  | error e => simp [Except.toOption]
  | ok found? => simp [Except.toOption]

theorem made?_congr (same : piece.normalize = other.normalize) : made? piece = made? other := by
  rw [made?, made?, ofPiece?, ofPiece?, same]

theorem ofPieces_eq_filterMap (built : ofPieces pieces = .ok variants) :
    variants = pieces.filterMap made? := by
  obtain ⟨found, each, rfl⟩ := ofPieces_eq_ok.mp built
  clear built
  induction each with
  | nil => rfl
  | @cons piece found? _ _ here _ ih =>
    have made : made? piece = found? := by rw [made?, here]; rfl
    rw [List.flatMap_cons, ih]
    cases found? with
    | none => rw [List.filterMap_cons_none made]; rfl
    | some variant => rw [List.filterMap_cons_some made]; rfl

theorem text_of_made? (made : made? piece = some variant) : variant.text = piece.text :=
  text_of_shape (shape_of_ofPiece? (made?_eq_some.mp made))

/-- Only pieces without text have no variant. -/
theorem text_of_made?_eq_none (built : ofPieces pieces = .ok variants) (member : piece ∈ pieces)
    (nothing : made? piece = none) : piece.text = "" := by
  obtain ⟨found, each, -⟩ := ofPieces_eq_ok.mp built
  obtain ⟨found?, -, here⟩ := exists_mem_of_forall₂ each member
  have alone : ofPieces [piece] = .ok [] := by
    have none : found? = none := by
      rw [made?, here] at nothing
      exact nothing
    exact ofPieces_eq_ok.mpr ⟨[found?], .cons here .nil, by rw [none]; rfl⟩
  have empty : piece.normalize.1 = [] := by
    by_contra nonempty
    obtain ⟨variant, inside, -⟩ := exists_of_mem alone List.mem_cons_self nonempty
    cases inside
  rw [Piece.text]
  simp only [empty, Separator.join]

end Variant

/-! ### The parts of a row -/

namespace Context

variable {context : Context} {combinator : Combinator} {grammar : String} {grammars : List String}
  {part expansion : Expansion} {parts : List Expansion}

/-- A grammar with an expansion has lexemes; if these are rewritten, it can be taken apart. -/
theorem exists_ofGrammar_of_expand (expanded : context.expand grammar = .ok part) :
    ∃ xs, Lexeme.ofGrammar grammar = .ok xs ∧
      ∀ items, context.registry.Rewrites xs items → part.isStructured = true := by
  cases blank : (Text.trim grammar).isEmpty with
  | true =>
    have empty : Text.trim grammar = "" := String.isEmpty_iff.mp blank
    have lexed : Lexeme.ofGrammar (Text.trim grammar) = .ok [] := by
      rw [empty]
      exact Lexeme.ofGrammar_eq_ok.mpr Lexeme.readAll_nil
    rw [expand_of_blank context blank] at expanded
    cases expanded
    exact ⟨[], Lexeme.ofGrammar_of_trim lexed, fun _ _ => rfl⟩
  | false =>
    obtain ⟨substitution, substituted⟩ : ∃ substitution,
        context.registry.substitute grammar = .ok substitution := by
      unfold expand at expanded
      dsimp only at expanded
      rw [if_neg (by simp [blank])] at expanded
      obtain ⟨substitution, substituted, -⟩ := bind_eq_ok.mp expanded
      exact ⟨substitution, Registry.substitute_trim.mp substituted⟩
    obtain ⟨xs, read, walked⟩ := bind_eq_ok.mp substituted
    refine ⟨xs, read, fun items rewrites => ?_⟩
    rw [Registry.Rewrites, walked] at rewrites
    cases rewrites
    exact List.isEmpty_iff.mpr (unknown_of_expand blank substituted expanded)

/-- If a row of bracketed grammars can be taken apart, each of them can. -/
theorem structured_of_row
    (each : List.Forall₂ (fun grammar part => context.expand grammar = .ok part) grammars parts)
    (expanded : context.expand (combinator.row (grammars.map bracketed)) = .ok expansion)
    (structured : expansion.isStructured = true) : ∀ part ∈ parts, part.isStructured = true := by
  obtain ⟨runs, read, known⟩ : ∃ runs,
      List.Forall₂ (fun grammar xs => Lexeme.ofGrammar grammar = .ok xs) grammars runs ∧
      List.Forall₂ (fun part xs => ∀ items, context.registry.Rewrites xs items →
        part.isStructured = true) parts runs := by
    clear expanded
    induction each with
    | nil => exact ⟨[], .nil, .nil⟩
    | cons here others ih =>
      obtain ⟨xs, read, known⟩ := exists_ofGrammar_of_expand here
      obtain ⟨runs, readOthers, knownOthers⟩ := ih
      exact ⟨xs :: runs, .cons read readOthers, .cons known knownOthers⟩
  have readRow : Lexeme.ofGrammar (combinator.row (grammars.map bracketed)) =
      .ok (combinator.delimiter.intercalate (runs.map fun xs => (Tree.Core.brackets xs).lexemes)) := by
    apply Lexeme.ofGrammar_row
    rw [List.forall₂_map_left_iff, List.forall₂_map_right_iff]
    exact read.imp fun _ _ => Lexeme.ofGrammar_bracketed
  obtain ⟨items, tree, derivation⟩ := exists_derivation expanded structured
  obtain ⟨xs, readTrimmed, rewrites⟩ := bind_eq_ok.mp derivation.substituted
  rw [Lexeme.ofGrammar_of_trim readTrimmed] at readRow
  cases readRow
  change context.registry.Rewrites _ items at rewrites
  obtain ⟨runs', each', -⟩ := rewrites.intercalate
  rw [List.forall₂_map_left_iff] at each'
  intro part member
  obtain ⟨xs, ofRuns, settles⟩ := exists_mem_of_forall₂ known member
  obtain ⟨run, -, rewritten⟩ := exists_mem_of_forall₂ each' ofRuns
  obtain ⟨inner, inside, -⟩ := rewritten.brackets
  exact settles inner inside

/-! ### Choices that are cut off -/

/-- A choice of grammars is cut off, though none of the grammars is by itself. -/
structure TruncatesChoice (context : Context) (grammars : List String) (parts : List Expansion)
    (expansion : Expansion) : Prop where
  room : 1 ≤ context.limits.variants
  whole : List.Forall₂ (fun grammar part => context.expand grammar = .ok part ∧
    part.truncated = false) grammars parts
  expanded : context.expand (Combinator.choice.row (grammars.map bracketed)) = .ok expansion
  structured : expansion.isStructured = true
  truncated : expansion.truncated = true

/-- A choice that is cut off comes from a group of trees, one for each grammar. -/
theorem TruncatesChoice.exists_derivation
    (truncates : context.TruncatesChoice grammars parts expansion) :
    ∃ items trees, Derivation context (Combinator.choice.row (grammars.map bracketed)) expansion items
      (.group .choice trees) ∧
        List.Forall₂ (fun tree part => Variant.ofPieces (context.pieces tree) = .ok part.variants ∧
          (tree.alternatives context.limits).truncated = false) trees parts := by
  have structured := structured_of_row (truncates.whole.imp fun _ _ whole => whole.1)
    truncates.expanded truncates.structured
  obtain ⟨trees, denotes, made⟩ : ∃ trees,
      List.Forall₂ (context.DenotesOperand .choice) (grammars.map bracketed) trees ∧
      List.Forall₂ (fun tree part => Variant.ofPieces (context.pieces tree) = .ok part.variants ∧
        (tree.alternatives context.limits).truncated = false) trees parts := by
    have each := truncates.whole
    clear truncates
    induction each with
    | nil => exact ⟨[], .nil, .nil⟩
    | @cons grammar part _ _ here others ih =>
      obtain ⟨known, knownOthers⟩ := List.forall_mem_cons.mp structured
      obtain ⟨items, tree, derivation⟩ := ValueGrammar.exists_derivation here.1 known
      obtain ⟨trees, denotes, made⟩ := ih knownOthers
      exact ⟨tree :: trees,
        .cons ((Denotes.of_derivation derivation).isOperand .choice) denotes,
        .cons ⟨derivation.variants, derivation.truncated.symm.trans here.2⟩ made⟩
  have nonempty : grammars.map bracketed ≠ [] := by
    intro none
    have expanded := truncates.expanded
    rw [none, expand_of_blank context rfl] at expanded
    have truncated := truncates.truncated
    cases expanded
    cases truncated
  obtain ⟨items, derivation⟩ := (DenotesOperand.row nonempty denotes).exists_derivation
    truncates.expanded truncates.structured
  refine ⟨items, trees, ?_, made⟩
  rcases Tree.ofOperands_cases .choice trees with same | ⟨tree, rfl, same⟩
  · rw [same] at derivation
    exact derivation
  -- A row of one operand is that operand, which is not cut off.
  · rw [same] at derivation
    have cut := derivation.truncated.symm.trans truncates.truncated
    obtain ⟨part, -, -, uncut⟩ := exists_mem_of_forall₂ made List.mem_cons_self
    rw [uncut] at cut
    cases cut

/-- The pieces of a choice that is cut off are the first ones of its operands, put in order. -/
theorem exists_pieces_of_truncated {limits : Limits} {trees : List Tree}
    (whole : ∀ tree ∈ trees, (tree.alternatives limits).truncated = false)
    (truncated : ((Tree.group .choice trees).alternatives limits).truncated = true) :
    ∃ kept, kept <+: Piece.distinct [] (trees.flatMap fun tree => (tree.alternatives limits).pieces) ∧
      kept.length = limits.variants ∧
      ((Tree.group .choice trees).alternatives limits).pieces =
        bySize (fun piece => piece.text.length) kept := by
  have own : (Combinator.choice.alternatives limits
      (trees.map fun tree => (tree.alternatives limits).pieces)).truncated = true := by
    simp only [Tree.alternatives, Tree.childAlternatives_eq_map, List.map_map, Bool.or_eq_true,
      List.any_eq_true, List.mem_map] at truncated
    rcases truncated with ⟨operand, ⟨tree, member, rfl⟩, cut⟩ | own
    · rw [whole tree member] at cut
      cases cut
    · exact own
  obtain ⟨kept, first, count, same⟩ :=
    Gathering.exists_pieces_byLength_of_truncated (fun _ _ => rfl) own
  rw [List.flatMap_map] at first
  refine ⟨kept, first, count, ?_⟩
  rw [Tree.pieces_group]
  exact same

/-- The variants of the pieces of a choice say as much as the texts of the pieces do. -/
theorem madeByText_of_derivation {items : List Lexeme} {trees : List Tree}
    (derivation : Derivation context grammar expansion items (.group .choice trees)) :
    Piece.MadeByText Variant.made? (trees.flatMap context.pieces) := by
  have written {piece : Piece} (member : piece ∈ trees.flatMap context.pieces) (text : String)
      (inside : .token text ∈ piece) : Written text := by
    obtain ⟨tree, ofTrees, ofTree⟩ := List.mem_flatMap.mp member
    have within : tree.leaves ⊆ (Tree.group .choice trees).leaves := fun atom leaf =>
      Tree.mem_childLeaves.mpr ⟨tree, ofTrees, leaf⟩
    exact derivation.written within ofTree inside
  constructor
  · intro first member second member' same
    exact Variant.made?_congr (Piece.normalize_eq_of_text (written member) (written member') same)
  · intro first _ second _ variant made made'
    exact (Variant.text_of_made? made).symm.trans (Variant.text_of_made? made')

/-- The first variants are kept, and put in order of length. One place less is left for them if an
alternative without tokens has taken one. -/
theorem TruncatesChoice.exists_first
    (truncates : context.TruncatesChoice grammars parts expansion) :
    ∃ kept missing, (parts.flatMap (·.variants)).eraseDups = kept ++ missing ∧
      expansion.variants = bySize (·.text.length) kept ∧
      kept.length ≤ context.limits.variants ∧ context.limits.variants ≤ kept.length + 1 := by
  obtain ⟨items, trees, derivation, made⟩ := truncates.exists_derivation
  have all : parts.flatMap (·.variants) = (trees.flatMap context.pieces).filterMap Variant.made? := by
    clear truncates derivation
    induction made with
    | nil => rfl
    | cons here _ ih =>
      rw [List.flatMap_cons, List.flatMap_cons, List.filterMap_append, ← ih,
        ← Variant.ofPieces_eq_filterMap here.1]
  obtain ⟨keptPieces, front, count, same⟩ := exists_pieces_of_truncated
    (fun tree member => (exists_mem_of_forall₂ made member).choose_spec.2.2)
    (derivation.truncated.symm.trans truncates.truncated)
  have first := front.sublist
  obtain ⟨missingPieces, split⟩ := front
  have built := derivation.variants
  rw [same] at built
  have byText := madeByText_of_derivation derivation
  refine ⟨keptPieces.filterMap Variant.made?, missingPieces.filterMap Variant.made?, ?_, ?_, ?_, ?_⟩
  · rw [all, ← Piece.filterMap_distinct byText, ← List.filterMap_append, split]
    rfl
  · rw [Variant.ofPieces_eq_filterMap built]
    exact filterMap_bySize fun piece _ variant made => congrArg String.length (Variant.text_of_made? made)
  · rw [← count]
    exact List.length_filterMap_le _ _
  · rw [← count]
    -- Of several pieces without tokens only one is kept, as they have one text.
    refine length_le_filterMap (List.Pairwise.imp_of_mem ?_ (Piece.pairwise_distinct [] _ |>.sublist first))
    intro piece other member member' different nothing
    have blank {piece : Piece} (member : piece ∈ keptPieces) (none : Variant.made? piece = none) :
        piece.text = "" :=
      Variant.text_of_made?_eq_none built (mem_bySize.mpr member) none
    exact different ((blank member nothing.1).trans (blank member' nothing.2).symm)

/-! ### Main results -/

/-- No variant of a part that is missing from an expansion is shorter than one of the expansion. -/
def KeepsSimplest (parts : List Expansion) (expansion : Expansion) : Prop :=
  ∀ missing ∈ parts.flatMap (·.variants), missing ∉ expansion.variants →
    ∀ kept ∈ expansion.variants, kept.text.length ≤ missing.text.length

instance (parts : List Expansion) (expansion : Expansion) : Decidable (KeepsSimplest parts expansion) :=
  inferInstanceAs (Decidable (∀ missing ∈ parts.flatMap (·.variants), missing ∉ expansion.variants →
    ∀ kept ∈ expansion.variants, kept.text.length ≤ missing.text.length))

/-- A choice that is cut off keeps the variants of its alternatives that are written first, each where
it comes first, and puts only those in order of length. The missing ones are the rest, so the simplest
variants are kept exactly if none of the rest is shorter than one of the first; this is so if the
alternatives are written in order of length. -/
theorem truncated_choice_keeps_first
    (truncates : context.TruncatesChoice grammars parts expansion) :
    ∃ kept missing, (parts.flatMap (·.variants)).eraseDups = kept ++ missing ∧
      expansion.variants = bySize (·.text.length) kept ∧
      kept.length ≤ context.limits.variants ∧ context.limits.variants ≤ kept.length + 1 ∧
      (∀ variant, variant ∈ missing ↔
        variant ∈ parts.flatMap (·.variants) ∧ variant ∉ expansion.variants) ∧
      (KeepsSimplest parts expansion ↔
        ∀ variant ∈ kept, ∀ other ∈ missing, variant.text.length ≤ other.text.length) ∧
      ((parts.flatMap (·.variants)).Pairwise
        (fun variant other => variant.text.length ≤ other.text.length) →
          KeepsSimplest parts expansion) := by
  obtain ⟨kept, missing, split, same, atMost, atLeast⟩ := truncates.exists_first
  have apart : ∀ variant ∈ kept, ∀ other ∈ missing, variant ≠ other := by
    have nodup := nodup_eraseDups (parts.flatMap (·.variants))
    rw [split, List.nodup_append] at nodup
    exact nodup.2.2
  have isKept (variant : Variant) : variant ∈ expansion.variants ↔ variant ∈ kept := by
    rw [same, mem_bySize]
  have isMissing (variant : Variant) : variant ∈ missing ↔
      variant ∈ parts.flatMap (·.variants) ∧ variant ∉ expansion.variants := by
    have either : variant ∈ parts.flatMap (·.variants) ↔ variant ∈ kept ∨ variant ∈ missing := by
      rw [← List.mem_eraseDups, split, List.mem_append]
    rw [either, isKept]
    constructor
    · exact fun member => ⟨Or.inr member, fun other => apart variant other variant member rfl⟩
    · exact fun given => given.1.resolve_left given.2
  have simplest : KeepsSimplest parts expansion ↔
      ∀ variant ∈ kept, ∀ other ∈ missing, variant.text.length ≤ other.text.length := by
    constructor
    · intro keeps variant member other left
      obtain ⟨ofParts, notKept⟩ := (isMissing other).mp left
      exact keeps other ofParts notKept variant ((isKept variant).mpr member)
    · intro shorter other ofParts notKept variant member
      exact shorter variant ((isKept variant).mp member) other ((isMissing other).mpr ⟨ofParts, notKept⟩)
  refine ⟨kept, missing, split, same, atMost, atLeast, isMissing, simplest, fun ordered => ?_⟩
  rw [simplest]
  have firsts := ordered.sublist (eraseDups_sublist _)
  rw [split, List.pairwise_append] at firsts
  exact firsts.2.2

/-- Whether a choice of grammars is cut off, though none of them is by itself, with expansions that pass
a test. -/
def truncatesChoice (context : Context) (grammars : List String)
    (test : List Expansion → Expansion → Bool) : Bool :=
  decide (1 ≤ context.limits.variants) && (grammars.mapM context.expand).toOption.any fun parts =>
    (context.expand (Combinator.choice.row (grammars.map bracketed))).toOption.any fun expansion =>
      parts.all (!·.truncated) && expansion.isStructured && expansion.truncated &&
        test parts expansion

theorem exists_truncatesChoice (context : Context) (grammars : List String)
    (test : List Expansion → Expansion → Bool)
    (passed : context.truncatesChoice grammars test = true) :
    ∃ parts expansion, context.TruncatesChoice grammars parts expansion ∧
      test parts expansion = true := by
  rw [truncatesChoice, Bool.and_eq_true, decide_eq_true_eq] at passed
  obtain ⟨room, passed⟩ := passed
  obtain ⟨parts, visited, passed⟩ := exists_ok_of_any passed
  obtain ⟨expansion, expanded, passed⟩ := exists_ok_of_any passed
  simp only [Bool.and_eq_true, List.all_eq_true, Bool.not_eq_true'] at passed
  obtain ⟨⟨⟨whole, structured⟩, truncated⟩, tested⟩ := passed
  have each : List.Forall₂ (fun part grammar => context.expand grammar = .ok part ∧
      part.truncated = false) parts grammars :=
    forall₂_of_mem (mapM_eq_ok.mp visited).flip fun part member grammar made =>
      ⟨made, whole part member⟩
  exact ⟨parts, expansion, ⟨room, each.flip, expanded, structured, truncated⟩, tested⟩

/-- Under a cap of two, of `thin`, `b c` and `a` the first two are kept; the shorter one of them stands in
front, but `a` is missing. -/
theorem truncated_choice_keeps_first_two : ∃ parts expansion,
    (standard.withCap 2).TruncatesChoice ["thin", "b c | thin", "a"] parts expansion ∧
      expansion.variants.map Variant.text = ["b c", "thin"] ∧
      ∃ kept missing, (parts.flatMap (·.variants)).eraseDups = kept ++ missing ∧
        expansion.variants = bySize (·.text.length) kept ∧ kept.length = 2 ∧
        (∀ variant, variant ∈ missing ↔
          variant ∈ parts.flatMap (·.variants) ∧ variant ∉ expansion.variants) ∧
        (KeepsSimplest parts expansion ↔
          ∀ variant ∈ kept, ∀ other ∈ missing, variant.text.length ≤ other.text.length) := by
  obtain ⟨parts, expansion, truncates, tested⟩ := exists_truncatesChoice (standard.withCap 2)
    ["thin", "b c | thin", "a"]
    (fun _ expansion => expansion.variants.map Variant.text == ["b c", "thin"]) (by decide +kernel)
  obtain ⟨kept, missing, split, same, -, -, isMissing, simplest, -⟩ :=
    truncated_choice_keeps_first truncates
  have texts := eq_of_beq tested
  have two : kept.length = 2 := by
    rw [← (bySize_perm (·.text.length) kept).length_eq, ← same, ← List.length_map, texts]
    rfl
  exact ⟨parts, expansion, truncates, texts, kept, missing, split, same, two, isMissing, simplest⟩

/-- Under a cap of one, a choice of `aaa` and `b` keeps `aaa`. -/
theorem exists_truncated_choice_not_simplest : ∃ parts expansion,
    (standard.withCap 1).TruncatesChoice ["aaa", "b"] parts expansion ∧
      ¬ KeepsSimplest parts expansion := by
  obtain ⟨parts, expansion, truncates, tested⟩ := exists_truncatesChoice (standard.withCap 1)
    ["aaa", "b"] (fun parts expansion => !decide (KeepsSimplest parts expansion)) (by decide +kernel)
  exact ⟨parts, expansion, truncates, by simpa using tested⟩

/-- A choice that is cut off may lose a variant that is simpler than one it keeps. -/
theorem truncated_choice_not_simplest : ¬ ∀ (context : Context) (grammars : List String)
    (parts : List Expansion) (expansion : Expansion),
      context.TruncatesChoice grammars parts expansion → KeepsSimplest parts expansion := by
  intro simplest
  obtain ⟨parts, expansion, truncates, lost⟩ := exists_truncated_choice_not_simplest
  exact lost (simplest _ _ _ _ truncates)

end Context

end ValueGrammar
