import ValueGrammar.Proofs.Expansion.Distribution
import ValueGrammar.Proofs.Piece.Choices
import ValueGrammar.Proofs.Piece.Ordering

/-!
Brackets inside a row. Some operands of a choice, a sequence or a list may be put between brackets as a
row of the same combinator, and the variants stay the same, in their order. For a product that is
because rows may be put together part by part; for a choice because what has been gathered and put in
order may be gathered again.
-/
namespace ValueGrammar

/-! ### Pieces of rows of operands -/

namespace Tree

variable {limits : Limits} {combinator : Combinator} {trees front middle back : List Tree}

theorem ofOperands_of_several (several : 2 ≤ trees.length) :
    ofOperands combinator trees = group combinator trees := by
  match trees, several with
  | first :: second :: others, _ => exact ofOperands_cons_cons combinator first second others

/-- A row of operands is a group, or its only operand. -/
theorem ofOperands_cases (combinator : Combinator) (trees : List Tree) :
    ofOperands combinator trees = group combinator trees ∨
      ∃ tree, trees = [tree] ∧ ofOperands combinator trees = tree := by
  match trees with
  | [] => cases combinator <;> exact Or.inl rfl
  | [tree] =>
    cases combinator with
    | sequence =>
      cases tree with
      | separator s => exact Or.inl rfl
      | _ => exact Or.inr ⟨_, rfl, rfl⟩
    | _ => exact Or.inr ⟨_, rfl, rfl⟩
  | first :: second :: others => exact Or.inl (ofOperands_cons_cons combinator first second others)

/-- A row that is not cut off has operands that are not. -/
theorem uncut_of_ofOperands
    (uncut : ((ofOperands combinator trees).alternatives limits).truncated = false) :
    ∀ tree ∈ trees, (tree.alternatives limits).truncated = false := by
  rcases ofOperands_cases combinator trees with same | ⟨tree, rfl, same⟩
  · rw [same] at uncut
    exact (uncut_of_group uncut).1
  · rw [same] at uncut
    simpa using uncut

/-- The pieces of a row of operands in order are the rows of the choices from them. -/
theorem pieces_ofOperands_inOrder (inOrder : combinator ∈ [.sequence, .list])
    (uncut : ((ofOperands combinator trees).alternatives limits).truncated = false) :
    ((ofOperands combinator trees).alternatives limits).pieces =
      (choices (trees.map fun tree => (tree.alternatives limits).pieces)).map
        (Piece.joined combinator.joiner) := by
  rcases ofOperands_cases combinator trees with same | ⟨tree, rfl, same⟩
  · rw [same] at uncut ⊢
    have own := (uncut_of_group uncut).2
    rw [pieces_group]
    cases combinator with
    | sequence => exact Alternatives.pieces_product own
    | list => exact Alternatives.pieces_product own
    | _ => simp at inOrder
  · rw [same, List.map_singleton, choices_singleton, List.map_map]
    simp only [Function.comp_def, Piece.joined_singleton, List.map_id']

/-- The pieces of a choice of several operands are those of the operands, put in order. -/
theorem pieces_choice (uncut : ((group .choice trees).alternatives limits).truncated = false) :
    ((group .choice trees).alternatives limits).pieces =
      Piece.ordered (trees.flatMap fun tree => (tree.alternatives limits).pieces) := by
  rw [pieces_group]
  have gathered := Gathering.pieces_byLength_collect (uncut_of_group uncut).2
  rw [List.flatMap_map] at gathered
  exact gathered

/-- Operands in the middle of a row may be a row themselves. -/
theorem pieces_ofOperands_middle (associative : combinator ∈ [.choice, .sequence, .list])
    (nonempty : middle ≠ [])
    (uncut : ((ofOperands combinator (front ++ ofOperands combinator middle :: back)).alternatives
      limits).truncated = false)
    (uncutFlat : ((ofOperands combinator (front ++ middle ++ back)).alternatives
      limits).truncated = false) :
    ((ofOperands combinator (front ++ ofOperands combinator middle :: back)).alternatives
        limits).pieces =
      ((ofOperands combinator (front ++ middle ++ back)).alternatives limits).pieces := by
  have uncutMiddle := uncut_of_ofOperands uncut (ofOperands combinator middle) (by simp)
  by_cases inOrder : combinator ∈ [.sequence, .list]
  · rw [pieces_ofOperands_inOrder inOrder uncut,
      pieces_ofOperands_inOrder inOrder uncutFlat, List.map_append, List.map_cons,
      pieces_ofOperands_inOrder inOrder uncutMiddle, Piece.map_joined_choices, List.map_append,
      List.map_append]
  -- A choice of one operand is that operand, so only a choice of several is gathered and put in order.
  · obtain rfl : combinator = .choice := by simpa [inOrder] using associative
    by_cases several : 2 ≤ middle.length
    · by_cases alone : front = [] ∧ back = []
      · rw [alone.1, alone.2, List.append_nil]
        rfl
      · have around : 0 < front.length + back.length := by
          rw [← List.length_append, List.length_pos_iff, ne_eq, List.append_eq_nil_iff]
          exact alone
        rw [ofOperands_of_several several] at uncut uncutMiddle ⊢
        rw [ofOperands_of_several (by simp only [List.length_append, List.length_cons]; omega)]
          at uncut ⊢
        rw [ofOperands_of_several (by simp only [List.length_append]; omega)] at uncutFlat ⊢
        rw [pieces_choice uncut, pieces_choice uncutFlat, List.flatMap_append, List.flatMap_cons,
          pieces_choice uncutMiddle, ← List.append_assoc, Piece.ordered_middle, List.flatMap_append,
          List.flatMap_append]
    · obtain ⟨tree, rfl⟩ : ∃ tree, middle = [tree] := by
        rw [← List.length_eq_one_iff]
        have := List.length_pos_iff.mpr nonempty
        omega
      rw [List.append_assoc]
      rfl

end Tree

/-! ### Main result -/

namespace Context

variable {context : Context} {combinator : Combinator} {grammar : String}
  {front middle back : List String}

/-- A grammar forms an operand of a combinator if that is so of its substitution: it is accepted, and
outside brackets it has no combinator that binds no tighter. -/
def FormsOperand (context : Context) (combinator : Combinator) (grammar : String) : Prop :=
  ∃ substitution, context.registry.substitute grammar = .ok substitution ∧
    Tree.FormsOperand combinator substitution.items

theorem FormsOperand.exists_denotes (forms : context.FormsOperand combinator grammar) :
    ∃ tree, context.DenotesOperand combinator grammar tree := by
  obtain ⟨substitution, substituted, operand⟩ := forms
  obtain ⟨xs, read, walked⟩ := bind_eq_ok.mp substituted
  obtain ⟨tree, isOperand⟩ := operand.exists_isOperand
  refine ⟨tree, xs, read, fun items rewrites => ?_⟩
  rw [Registry.Rewrites, walked] at rewrites
  cases rewrites
  exact isOperand

/-- Brackets around some operands of a choice, a sequence or a list are redundant. -/
theorem variants_of_bracketed_row (associative : combinator ∈ [.choice, .sequence, .list])
    (nonempty : middle ≠ [])
    (operands : ∀ grammar ∈ front ++ middle ++ back, context.FormsOperand combinator grammar)
    {nested flat : Expansion}
    (expandsNested : context.Expands
      (combinator.row (front ++ bracketed (combinator.row middle) :: back)) nested)
    (expandsFlat : context.Expands (combinator.row (front ++ middle ++ back)) flat) :
    nested.variants = flat.variants := by
  have denote {grammars : List String} (subset : grammars ⊆ front ++ middle ++ back) :
      ∃ trees, List.Forall₂ (context.DenotesOperand combinator) grammars trees :=
    exists_forall₂ fun grammar member => (operands grammar (subset member)).exists_denotes
  obtain ⟨fronts, ofFront⟩ := denote (show front ⊆ _ by simp)
  obtain ⟨middles, ofMiddle⟩ := denote (show middle ⊆ _ by simp)
  obtain ⟨backs, ofBack⟩ := denote (show back ⊆ _ by simp)
  have solid : middles ≠ [] := by
    rintro rfl
    cases ofMiddle
    exact nonempty rfl
  have ofRow := (DenotesOperand.row nonempty ofMiddle).isOperand combinator
  have ofNested := DenotesOperand.row (by simp) (List.rel_append ofFront (.cons ofRow ofBack))
  have ofFlat := DenotesOperand.row (by simp [nonempty])
    (List.rel_append (List.rel_append ofFront ofMiddle) ofBack)
  obtain ⟨items, derivation⟩ :=
    ofNested.exists_derivation expandsNested.expanded expandsNested.structured
  obtain ⟨items', derivation'⟩ :=
    ofFlat.exists_derivation expandsFlat.expanded expandsFlat.structured
  have same := Tree.pieces_ofOperands_middle associative solid
    (derivation.truncated.symm.trans expandsNested.whole)
    (derivation'.truncated.symm.trans expandsFlat.whole)
  have made := derivation.variants
  rw [same, derivation'.variants] at made
  exact (Except.ok.inj made).symm

def formsOperand (context : Context) (combinator : Combinator) (grammar : String) : Bool :=
  (context.registry.substitute grammar).toOption.any fun substitution =>
    (Tree.ofLexemes substitution.items).toOption.any fun _ =>
      combinator != .sequence && !substitution.items.isEmpty && combinator.loose.all fun delimiter =>
        Tree.operands delimiter 0 substitution.items == [substitution.items]

theorem formsOperand_of_passed (passed : context.formsOperand combinator grammar = true) :
    context.FormsOperand combinator grammar := by
  obtain ⟨substitution, substituted, inner⟩ := exists_ok_of_any passed
  obtain ⟨tree, built, checked⟩ := exists_ok_of_any inner
  simp only [Bool.and_eq_true, bne_iff_ne, Bool.not_eq_true', List.isEmpty_eq_false_iff,
    List.all_eq_true, beq_iff_eq] at checked
  obtain ⟨⟨delimited, nonempty⟩, undivided⟩ := checked
  exact ⟨substitution, substituted, ⟨tree, built⟩, nonempty, undivided,
    fun sequence => absurd sequence delimited⟩

/-- In the brackets `a` stands behind `c c` and in front of `/ b`, whose text `b` has been met. -/
theorem variants_of_bracketed_row_slash : ∃ nested flat,
    standard.Expands (Combinator.choice.row
      (["b"] ++ bracketed (Combinator.choice.row ["c c", "/ b", "a"]) :: ["c /"])) nested ∧
    standard.Expands (Combinator.choice.row (["b"] ++ ["c c", "/ b", "a"] ++ ["c /"])) flat ∧
    nested.variants = flat.variants := by
  have operands : ∀ grammar ∈ ["b"] ++ ["c c", "/ b", "a"] ++ ["c /"],
      standard.FormsOperand .choice grammar := by
    intro grammar member
    apply formsOperand_of_passed
    revert member
    revert grammar
    decide +kernel
  have expands (grammar : String) (passed : Distribution.expandsTo standard (fun _ => true)
      grammar = true) : ∃ expansion, standard.Expands grammar expansion :=
    Distribution.exists_expansion passed
  obtain ⟨nested, ofNested⟩ := expands (Combinator.choice.row
    (["b"] ++ bracketed (Combinator.choice.row ["c c", "/ b", "a"]) :: ["c /"])) (by decide +kernel)
  obtain ⟨flat, ofFlat⟩ := expands (Combinator.choice.row (["b"] ++ ["c c", "/ b", "a"] ++ ["c /"]))
    (by decide +kernel)
  exact ⟨nested, flat, ofNested, ofFlat,
    variants_of_bracketed_row (by decide) (List.cons_ne_nil _ _) operands ofNested ofFlat⟩

end Context

end ValueGrammar
