import ValueGrammar.Proofs.Expansion.Distribution
import ValueGrammar.Proofs.Slot.Verdict

/-!
Choices as unions. A choice of two grammars has the variants of both and no others, whatever stands
at their ends. A value therefore has a form under the choice if it has one under either grammar, and
a complete one if it has a complete one under either, though the form itself may be another.
-/
namespace ValueGrammar

/-! ### Variants of a choice -/

/-- A choice has the variants of both grammars. -/
theorem mem_variants_choice {context : Context} {left right : String}
    {ofLeft ofRight ofChoice : Expansion} (expandsLeft : context.Expands left ofLeft)
    (expandsRight : context.Expands right ofRight)
    (expandsChoice : context.Expands (bracketed left ++ " | " ++ bracketed right) ofChoice)
    (variant : Variant) :
    variant ∈ ofChoice.variants ↔ variant ∈ ofLeft.variants ∨ variant ∈ ofRight.variants := by
  obtain ⟨itemsLeft, treeLeft, fromLeft⟩ :=
    exists_derivation expandsLeft.expanded expandsLeft.structured
  obtain ⟨itemsRight, treeRight, fromRight⟩ :=
    exists_derivation expandsRight.expanded expandsRight.structured
  have denotes := (Context.Denotes.of_derivation fromLeft).either
    (Context.Denotes.of_derivation fromRight)
  obtain ⟨items, fromChoice⟩ :=
    denotes.exists_derivation expandsChoice.expanded expandsChoice.structured
  -- Gathering may drop pieces of the choice, but none with a shape of its own.
  have union : ofChoice.shapes = ofLeft.shapes ∪ ofRight.shapes :=
    calc ofChoice.shapes
        = Piece.shapes (context.pieces treeLeft ++ context.pieces treeRight) := by
          rw [fromChoice.shapes_choice expandsChoice.whole]
          simp
      _ = ofLeft.shapes ∪ ofRight.shapes := by
          rw [Piece.shapes_append, fromLeft.shapes_eq, fromRight.shapes_eq]
  -- Tokens are read without regard to the grammar, so variants of one shape are the same.
  constructor
  · intro member
    have read := fromChoice.ofToken_of_mem member
    rw [fromLeft.mem_variants_iff read, fromRight.mem_variants_iff read]
    exact union.subset ((fromChoice.mem_variants_iff read).mp member)
  · intro given
    rcases given with member | member
    · have read := fromLeft.ofToken_of_mem member
      rw [fromChoice.mem_variants_iff read, union]
      exact Or.inl ((fromLeft.mem_variants_iff read).mp member)
    · have read := fromRight.ofToken_of_mem member
      rw [fromChoice.mem_variants_iff read, union]
      exact Or.inr ((fromRight.mem_variants_iff read).mp member)

/-! ### Values of a choice -/

namespace Context

variable {left right : String} {ofLeft ofRight ofChoice : Expansion}

/-- In the standard context an expanded grammar gives a value a form if some variant suits it, and a
complete one if the value fills that variant. -/
theorem exists_form_iff {grammar : String} {expansion : Expansion}
    (expands : standard.Expands grammar expansion) (value : String) :
    ((∃ form, standard.form grammar value = .ok form) ↔
      ∃ variant ∈ expansion.variants, standard.Suits variant (Fragments.ofValue value)) ∧
    ((∃ form, standard.form grammar value = .ok form ∧ form.complete = true) ↔
      ∃ variant ∈ expansion.variants, variant.length = (Fragments.ofValue value).length ∧
        standard.Suits variant (Fragments.ofValue value)) := by
  obtain ⟨items, tree, derivation⟩ := exists_derivation expands.expanded expands.structured
  have fills := fills_standard derivation
  rw [form_eq_formIn expands.expanded expands.structured]
  exact ⟨exists_formIn_iff fills, exists_complete_formIn_iff fills⟩

/-- A value has a form under a choice if and only if it has one under one of the grammars, and a
complete one if and only if it has a complete one under one of them. -/
theorem form_of_choice_iff (expandsLeft : standard.Expands left ofLeft)
    (expandsRight : standard.Expands right ofRight)
    (expandsChoice : standard.Expands (bracketed left ++ " | " ++ bracketed right) ofChoice)
    (value : String) :
    ((∃ form, standard.form (bracketed left ++ " | " ++ bracketed right) value = .ok form) ↔
      (∃ form, standard.form left value = .ok form) ∨
        ∃ form, standard.form right value = .ok form) ∧
    ((∃ form, standard.form (bracketed left ++ " | " ++ bracketed right) value = .ok form ∧
        form.complete = true) ↔
      (∃ form, standard.form left value = .ok form ∧ form.complete = true) ∨
        ∃ form, standard.form right value = .ok form ∧ form.complete = true) := by
  obtain ⟨acceptedChoice, completeChoice⟩ := exists_form_iff expandsChoice value
  obtain ⟨acceptedLeft, completeLeft⟩ := exists_form_iff expandsLeft value
  obtain ⟨acceptedRight, completeRight⟩ := exists_form_iff expandsRight value
  have union := mem_variants_choice expandsLeft expandsRight expandsChoice
  rw [acceptedChoice, acceptedLeft, acceptedRight, completeChoice, completeLeft, completeRight]
  simp only [union, or_and_right, exists_or, and_self]

theorem form_of_choice_iff_slash : ∃ ofLeft ofRight ofChoice,
    standard.Expands "a b?" ofLeft ∧ standard.Expands "/ a" ofRight ∧
      standard.Expands (bracketed "a b?" ++ " | " ++ bracketed "/ a") ofChoice ∧
      ∀ value,
        ((∃ form, standard.form (bracketed "a b?" ++ " | " ++ bracketed "/ a") value = .ok form) ↔
          (∃ form, standard.form "a b?" value = .ok form) ∨
            ∃ form, standard.form "/ a" value = .ok form) ∧
        ((∃ form, standard.form (bracketed "a b?" ++ " | " ++ bracketed "/ a") value = .ok form ∧
            form.complete = true) ↔
          (∃ form, standard.form "a b?" value = .ok form ∧ form.complete = true) ∨
            ∃ form, standard.form "/ a" value = .ok form ∧ form.complete = true) := by
  have expandsTo (grammar : String) (passed : Distribution.expandsTo standard (fun _ => true)
      grammar = true) : ∃ expansion, standard.Expands grammar expansion :=
    Distribution.exists_expansion passed
  obtain ⟨ofLeft, expandsLeft⟩ := expandsTo "a b?" (by decide +kernel)
  obtain ⟨ofRight, expandsRight⟩ := expandsTo "/ a" (by decide +kernel)
  obtain ⟨ofChoice, expandsChoice⟩ :=
    expandsTo (bracketed "a b?" ++ " | " ++ bracketed "/ a") (by decide +kernel)
  exact ⟨ofLeft, ofRight, ofChoice, expandsLeft, expandsRight, expandsChoice,
    form_of_choice_iff expandsLeft expandsRight expandsChoice⟩

end Context

end ValueGrammar
