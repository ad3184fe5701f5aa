import ValueGrammar.Proofs.Expansion.Derivation
import ValueGrammar.Proofs.Tree.Row

/-!
Variants as fixed points. The text of a variant expands to that variant alone, under every limit,
so the text of a variant determines the variant.
-/
namespace ValueGrammar

open Unicode Text

/-! ### Texts of rows -/

theorem Separator.join_stops {texts : List String} (nonempty : texts ≠ [])
    (written : ∀ text ∈ texts, Written text) (separators : List Separator) :
    StopsBefore isBlank (join texts separators).toList ∧
      StopsBefore isBlank (join texts separators).toList.reverse ∧
        (join texts separators).toList ≠ [] := by
  induction texts generalizing separators with
  | nil => exact absurd rfl nonempty
  | cons text texts ih =>
    obtain ⟨reference, proper, rfl⟩ := (written text List.mem_cons_self).proper
    obtain ⟨first, last⟩ := Reference.text_stops proper
    obtain ⟨c, cs, shape, -⟩ := Lexeme.readToken?_head
      ((Lexeme.isToken_text proper).readToken? (.nil continuesToken))
    rw [List.append_nil] at shape
    have solid : reference.text.toList ≠ [] := by
      rw [shape]
      exact List.cons_ne_nil c cs
    cases texts with
    | nil => exact ⟨first, last, solid⟩
    | cons next texts =>
      obtain ⟨-, later, behind⟩ := ih (List.cons_ne_nil _ _)
        (fun other member => written other (List.mem_cons_of_mem _ member)) separators.tail
      have whole : (join (reference.text :: next :: texts) separators).toList =
          reference.text.toList ++ ((separators.headD .space).text.toList ++
            (join (next :: texts) separators.tail).toList) := by
        simp only [join, String.toList_append, List.append_assoc]
      rw [whole]
      refine ⟨?_, ?_, ?_⟩
      · intro d member
        rw [shape] at member first
        exact first d member
      · intro d member
        apply later d
        rw [List.reverse_append, List.reverse_append, List.append_assoc, List.head?_append] at member
        cases back : (join (next :: texts) separators.tail).toList.reverse with
        | nil => exact absurd (List.reverse_eq_nil_iff.mp back) behind
        | cons e es =>
          rw [back] at member
          exact member
      · simp [solid]

/-- Written tokens with separators between them make a text without blanks at its ends. -/
theorem Separator.trim_join {texts : List String} (nonempty : texts ≠ [])
    (written : ∀ text ∈ texts, Written text) (separators : List Separator) :
    trim (join texts separators) = join texts separators := by
  obtain ⟨first, last, -⟩ := join_stops nonempty written separators
  unfold trim
  rw [trimChars_eq_self first last, String.ofList_toList]

/-! ### The expansion of the text of a variant -/

/-- A piece whose row of atoms fits into the limits: either there is room, or it is one token. -/
theorem alternatives_row {limits : Limits} {texts : List String} (nonempty : texts ≠ [])
    (separators : List Separator) (fits : 1 ≤ limits.variants ∨ texts.length = 1) :
    (Tree.ofRow (Lexeme.row texts separators)).alternatives limits =
      ⟨[Piece.spell texts separators], false⟩ := by
  rcases fits with room | one
  · have solid := Tree.nil_not_mem_operands_row nonempty separators
    rw [Tree.alternatives_ofRow room (Lexeme.isFlat_row texts separators) solid,
      Lexeme.map_atom_row]
  · obtain ⟨text, rfl⟩ := List.length_eq_one_iff.mp one
    rfl

/-- The variant of a piece of settled tokens is what its text expands to. -/
theorem expand_text {context : Context} {piece : Piece} {variant : Variant}
    (made : Variant.ofPiece? piece = .ok (some variant))
    (settled : ∀ text, .token text ∈ piece → context.registry.Settled text)
    (fits : 1 ≤ context.limits.variants ∨ piece.normalize.1.length = 1) :
    context.expand variant.text = .ok ⟨variant.text, [variant], [], false⟩ := by
  obtain ⟨nonempty, separators, places⟩ := Variant.ofPiece?_eq_some.mp made
  have length := Piece.length_normalize piece
  have text : variant.text = Separator.join piece.normalize.1 piece.normalize.2 := by
    have shape := Variant.shape_of_ofPiece? made
    unfold Variant.text
    rw [← shape]
    rfl
  have settled' : ∀ text ∈ piece.normalize.1, context.registry.Settled text :=
    fun text member => settled text (Piece.mem_normalize.mp member)
  have written : ∀ text ∈ piece.normalize.1, Written text :=
    fun text member => (settled' text member).written
  have trimmed : trim variant.text = variant.text := by
    rw [text]
    exact Separator.trim_join nonempty written _
  have nonblank : (trim variant.text).isEmpty = false := by
    obtain ⟨-, -, solid⟩ := Separator.join_stops nonempty written piece.normalize.2
    rw [trimmed, text, Bool.eq_false_iff]
    intro empty
    rw [String.isEmpty_iff] at empty
    rw [empty] at solid
    exact solid rfl
  have lexed : Lexeme.ofGrammar variant.text =
      .ok (Lexeme.row piece.normalize.1 piece.normalize.2) := by
    rw [text]
    exact Lexeme.ofGrammar_eq_ok.mpr (Lexeme.readAll_join written _)
  have row := alternatives_row nonempty piece.normalize.2 fits
  have derivation : Derivation context variant.text ⟨variant.text, [variant], [], false⟩
      (Lexeme.row piece.normalize.1 piece.normalize.2)
      (Tree.ofRow (Lexeme.row piece.normalize.1 piece.normalize.2)) := by
    constructor
    · rw [trimmed]
      apply Registry.substitute_of_settled lexed
      intro text member
      exact settled' text (Lexeme.mem_of_token_mem_row member)
    · exact Tree.ofLexemes_flat (Lexeme.isFlat_row _ _) (Tree.nil_not_mem_operands_row nonempty _)
    · exact Tree.excess?_ofRow _ _
    · rw [row, Variant.ofPieces_eq_ok]
      refine ⟨[some variant], .cons ?_ .nil, rfl⟩
      rw [Variant.ofPiece?_eq_some, Piece.normalize_spell length]
      exact ⟨nonempty, separators, places⟩
    · rw [row]
    · exact trimmed.symm
    · rfl
  exact derivation.expand nonblank

/-- A variant of a structured expansion comes from a piece of settled tokens that fits into the
limits. -/
theorem Derivation.expand_variant {context : Context} {grammar : String} {expansion : Expansion}
    {items : List Lexeme} {tree : Tree}
    (derivation : Derivation context grammar expansion items tree) {variant : Variant}
    (member : variant ∈ expansion.variants) :
    context.expand variant.text = .ok ⟨variant.text, [variant], [], false⟩ := by
  obtain ⟨piece, inside, made⟩ := (Variant.mem_ofPieces derivation.variants).mp member
  have reading := Tree.readings_of_mem_alternatives tree inside
  apply expand_text made
  · intro text token
    exact derivation.settled_of_mem_readings reading token
  · by_cases room : 1 ≤ context.limits.variants
    · exact Or.inl room
    · right
      have none : context.limits.variants = 0 := by omega
      have short := Tree.length_le_one_of_no_room none inside
      have nonempty := (Variant.ofPiece?_eq_some.mp made).1
      have atLeast := List.length_pos_iff.mpr nonempty
      have atMost := Piece.length_tokens_le piece
      omega

/-! ### Main result -/

/-- The text of a variant expands to exactly that variant, under every limit. So variants of
structured expansions in one context are the same if their texts are; and pieces of tokens that
substitution leaves, which gathering takes to be one when their texts are the same, have the same
variant. -/
theorem variant_is_fixed_point {context : Context} {grammar : String} {expansion : Expansion}
    (expanded : context.expand grammar = .ok expansion)
    (structured : expansion.isStructured = true) :
    (∀ variant ∈ expansion.variants,
        context.expand variant.text = .ok ⟨variant.text, [variant], [], false⟩) ∧
      (∀ grammar' expansion', context.expand grammar' = .ok expansion' →
        expansion'.isStructured = true →
        ∀ variant ∈ expansion.variants, ∀ variant' ∈ expansion'.variants,
          variant.text = variant'.text → variant = variant') ∧
      ∃ items, context.registry.substitute (Text.trim grammar) = .ok ⟨items, []⟩ ∧
        ∀ p q : Piece, (∀ text, .token text ∈ p → .token text ∈ items) →
          (∀ text, .token text ∈ q → .token text ∈ items) → p.text = q.text →
            Variant.ofPiece? p = Variant.ofPiece? q := by
  obtain ⟨items, tree, derivation⟩ := exists_derivation expanded structured
  refine ⟨fun variant member => derivation.expand_variant member, ?_, ?_⟩
  · intro grammar' expansion' expanded' structured' variant member variant' member' same
    obtain ⟨items', tree', derivation'⟩ := exists_derivation expanded' structured'
    have alone := derivation.expand_variant member
    rw [same, derivation'.expand_variant member'] at alone
    simp only [Except.ok.injEq, Expansion.mk.injEq, List.cons.injEq] at alone
    exact alone.2.1.1.symm
  · refine ⟨items, derivation.substituted, ?_⟩
    intro p q left right same
    have written {piece : Piece} (inside : ∀ text, .token text ∈ piece → .token text ∈ items) :
        ∀ text, .token text ∈ piece → Written text :=
      fun text member => (derivation.settled text (inside text member)).written
    unfold Variant.ofPiece?
    rw [Piece.normalize_eq_of_text (written left) (written right) same]

/-- A grammar with a range, a function, commas and a slash. -/
theorem listed_variant_is_fixed_point : ∃ expansion,
    Context.standard.expand "<number [0,5]>#\x7b1,2\x7d / minmax(0px, 1fr)" = .ok expansion ∧
      expansion.variants.map (·.text) = ["<number [0,5]> / minmax(0px, 1fr)",
        "<number [0,5]>, <number [0,5]> / minmax(0px, 1fr)"] ∧
      ∀ variant ∈ expansion.variants,
        Context.standard.expand variant.text = .ok ⟨variant.text, [variant], [], false⟩ := by
  have computed : (Context.standard.expand "<number [0,5]>#\x7b1,2\x7d / minmax(0px, 1fr)").toOption.any
      (fun expansion => expansion.isStructured &&
        expansion.variants.map (·.text) == ["<number [0,5]> / minmax(0px, 1fr)",
          "<number [0,5]>, <number [0,5]> / minmax(0px, 1fr)"]) = true := by
    decide +kernel
  obtain ⟨expansion, expanded, tested⟩ := exists_ok_of_any computed
  rw [Bool.and_eq_true, beq_iff_eq] at tested
  exact ⟨expansion, expanded, tested.2, (variant_is_fixed_point expanded tested.1).1⟩

end ValueGrammar
