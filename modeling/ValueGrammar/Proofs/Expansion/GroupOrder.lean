import ValueGrammar.Proofs.Expansion.Cap
import ValueGrammar.Proofs.Expansion.Distribution
import ValueGrammar.Proofs.Piece.Generation

/-!
The order of the variants of a choice, a subset or a set of operands. No two of them have the same text,
shorter ones stand before longer ones, and those of one length in the order in which they are generated
first. That is so whether or not variants have been left out.
-/
namespace ValueGrammar

/-! ### Variants in the order of pieces -/

namespace Variant

theorem text_of_shape {variant : Variant} {piece : Piece} (same : variant.shape = piece.normalize) :
    variant.text = piece.text := by
  rw [Piece.text, ← same]
  rfl

/-- Variants stand in the order of the pieces that have one. -/
theorem exists_sublist_of_ofPieces {pieces : List Piece} {variants : List Variant}
    (built : ofPieces pieces = .ok variants) :
    ∃ kept : List Piece, kept.Sublist pieces ∧
      List.Forall₂ (fun piece variant => variant.shape = piece.normalize) kept variants := by
  obtain ⟨found, each, rfl⟩ := ofPieces_eq_ok.mp built
  clear built
  induction each with
  | nil => exact ⟨[], .slnil, .nil⟩
  | @cons piece found? _ _ here _ ih =>
    obtain ⟨kept, sublist, shapes⟩ := ih
    cases found? with
    | none => exact ⟨kept, sublist.cons piece, shapes⟩
    | some variant =>
      exact ⟨piece :: kept, sublist.cons_cons piece, .cons (shape_of_ofPiece? here) shapes⟩

end Variant

/-! ### The order of a group -/

/-- An origin generates a variant if no row with the text is generated before, and the row has the tokens
and separators of the variant. -/
structure Origin.Generates (limits : Limits) (combinator : Combinator) (operands : List (List Piece))
    (origin : Origin) (variant : Variant) : Prop where
  first : origin.IsFirst limits combinator operands
  shape : variant.shape = (origin.piece operands).normalize

/-- Variants of a group without duplicates, in order of length and then of generation. -/
structure Combinator.InOrder (limits : Limits) (combinator : Combinator) (operands : List (List Piece))
    (variants : List Variant) : Prop where
  distinct : (variants.map Variant.text).Nodup
  byLength : variants.Pairwise fun variant other => variant.text.length ≤ other.text.length
  generated : ∀ variant ∈ variants, ∃ origin : Origin,
    origin.Generates limits combinator operands variant
  byRank : variants.Pairwise fun variant other => variant.text.length = other.text.length →
    ∀ origin origin' : Origin, origin.Generates limits combinator operands variant →
      origin'.Generates limits combinator operands other → origin.rank < origin'.rank

variable {limits : Limits} {combinator : Combinator} {operands : List (List Piece)}
  {origin origin' : Origin} {variant : Variant}

/-- All origins of one variant have one rank. -/
theorem Origin.Generates.rank_eq (generates : origin.Generates limits combinator operands variant)
    (generates' : origin'.Generates limits combinator operands variant) :
    origin.rank = origin'.rank := by
  have same : (origin'.piece operands).text = (origin.piece operands).text :=
    (Variant.text_of_shape generates'.shape).symm.trans (Variant.text_of_shape generates.shape)
  exact le_antisymm (generates.first.least origin' generates'.first.generated same)
    (generates'.first.least origin generates.first.generated same.symm)

/-- The variants of the pieces of a group are in order. -/
theorem Combinator.inOrder_of_ofPieces (orderless : combinator.IsOrderless) {variants : List Variant}
    (built : Variant.ofPieces (combinator.alternatives limits operands).pieces = .ok variants) :
    combinator.InOrder limits operands variants := by
  obtain ⟨origins, made, first, sorted⟩ := combinator.exists_origins orderless limits operands
  obtain ⟨pieces, part, shapes⟩ := Variant.exists_sublist_of_ofPieces built
  rw [made] at part
  obtain ⟨kept, sublist, rfl⟩ := List.sublist_map_iff.mp part
  have generated : List.Forall₂ (Origin.Generates limits combinator operands) kept variants :=
    forall₂_of_mem (List.forall₂_map_left_iff.mp shapes) fun origin member variant shape =>
      ⟨first origin (sublist.subset member), shape⟩
  have ordered := sorted.sublist sublist
  have text {origin : Origin} {variant : Variant}
      (generates : origin.Generates limits combinator operands variant) :
      (origin.piece operands).text = variant.text := (Variant.text_of_shape generates.shape).symm
  constructor
  -- Two variants with one text would both be the first one with it.
  · refine List.pairwise_map.mpr (pairwise_of_forall₂ generated ?_ ordered)
    intro origin variant origin' variant' generates generates' before same
    rw [text generates, text generates', same] at before
    have back := generates'.first.least origin generates.first.generated
      (by rw [text generates, text generates', same])
    exact before.elim (lt_irrefl _) fun later => absurd later.2 back.not_gt
  · refine pairwise_of_forall₂ generated ?_ ordered
    intro origin variant origin' variant' generates generates' before
    rw [text generates, text generates'] at before
    exact before.elim Nat.le_of_lt fun later => later.1.le
  · intro variant member
    obtain ⟨origin, -, generates⟩ := exists_mem_of_forall₂ generated.flip member
    exact ⟨origin, generates⟩
  · refine pairwise_of_forall₂ generated ?_ ordered
    intro origin variant origin' variant' generates generates' before same other other' ofOther ofOther'
    rw [text generates, text generates', same] at before
    rw [ofOther.rank_eq generates, ofOther'.rank_eq generates']
    exact before.elim (fun less => absurd less (lt_irrefl _)) And.right

/-! ### Main result -/

namespace Context

variable {context : Context} {grammar : String} {children : List Tree} {expansion : Expansion}

/-- The variants of a choice, a subset or a set of operands are without duplicates, in order of length,
and those of one length in the order in which they are generated first. -/
theorem variants_of_group_ordered (orderless : combinator.IsOrderless)
    (accepted : context.Accepts grammar (.group combinator children))
    (expanded : context.expand grammar = .ok expansion) (structured : expansion.isStructured = true) :
    combinator.InOrder context.limits (children.map context.pieces) expansion.variants := by
  obtain ⟨items, derivation⟩ := accepted.denotes.exists_derivation expanded structured
  have built := derivation.variants
  rw [Tree.pieces_group] at built
  exact Combinator.inOrder_of_ofPieces orderless built

def isGroupOf (context : Context) (combinator : Combinator) (grammar : String) : Bool :=
  (context.registry.substitute grammar).toOption.any fun substitution =>
    (Tree.ofLexemes substitution.items).toOption.any fun
      | .group top _ => top == combinator
      | _ => false

theorem exists_accepts_group (passed : context.isGroupOf combinator grammar = true) :
    ∃ children, context.Accepts grammar (.group combinator children) := by
  obtain ⟨substitution, substituted, inner⟩ := exists_ok_of_any passed
  obtain ⟨tree, built, top⟩ := exists_ok_of_any inner
  cases tree with
  | group other children =>
    obtain rfl : other = combinator := eq_of_beq top
    exact ⟨children, substitution, substituted, built⟩
  | _ => cases top

/-- Under a cap of three `c` stands before `b c`, though it is generated behind it, and `a c` is left
out. -/
theorem variants_of_group_ordered_truncated : ∃ children expansion,
    Combinator.someOf.IsOrderless ∧
      (standard.withCap 3).Accepts "[ a | b c ] || c" (.group .someOf children) ∧
      (standard.withCap 3).expand "[ a | b c ] || c" = .ok expansion ∧
      expansion.isStructured = true ∧ expansion.truncated = true ∧
      expansion.variants.map Variant.text = ["a", "c", "b c"] ∧
      Combinator.someOf.InOrder (standard.withCap 3).limits
        (children.map (standard.withCap 3).pieces) expansion.variants := by
  have computed : ((standard.withCap 3).expand "[ a | b c ] || c").toOption.any (fun expansion =>
      expansion.isStructured && expansion.truncated &&
        expansion.variants.map Variant.text == ["a", "c", "b c"]) = true := by decide +kernel
  obtain ⟨children, accepted⟩ := exists_accepts_group
    (show (standard.withCap 3).isGroupOf .someOf "[ a | b c ] || c" = true by decide +kernel)
  obtain ⟨expansion, expanded, tested⟩ := exists_ok_of_any computed
  simp only [Bool.and_eq_true, beq_iff_eq] at tested
  obtain ⟨⟨structured, truncated⟩, texts⟩ := tested
  exact ⟨children, expansion, by decide, accepted, expanded, structured, truncated, texts,
    variants_of_group_ordered (by decide) accepted expanded structured⟩

end Context

end ValueGrammar
