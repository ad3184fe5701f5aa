import ValueGrammar.Proofs.Slot.Completion
import ValueGrammar.Proofs.Slot.Picking

/-!
Edits that put back what is there. The edited fragments carry no separators, so they are written
with those of the first variant that they fill. The value comes out unchanged if and only if these
are the separators typed in it, which another variant, further behind, may have asked for.
-/
namespace ValueGrammar

open Fragments

variable {grammar value text : String} {form : Form} {slot : Nat}

/-- A fragment put back into its slot. -/
theorem editedFragments_of_typed (typed : (ofValue value).texts[slot]? = some text) :
    editedFragments (ofValue value).texts slot text = (ofValue value).texts := by
  have member := List.mem_of_getElem? typed
  have fragment := (split_isRow Separator.all value).fragments text member
  have nonempty : text ≠ "" := by
    rintro rfl
    exact fragment.nonempty rfl
  obtain ⟨bound, same⟩ := List.getElem?_eq_some_iff.mp typed
  rw [editedFragments_ofValue nonempty (trim_of_mem_ofValue member), ← same,
    ← List.drop_eq_getElem_cons bound, List.take_append_drop]

namespace Context

/-- A fragment of a value that has a complete form, put back into its slot, leaves the fragments, and
between them the separators of the first variant that they fill. The value is unchanged if and only
if these are the separators typed in it, and so if all variants that the fragments fill have
these. -/
theorem edit_of_typed (formed : standard.form grammar value = .ok form)
    (complete : form.complete = true) (typed : (ofValue value).texts[slot]? = some text) :
    ∃ expansion variant, standard.expand grammar = .ok expansion ∧
      IsFirst (fun v => v.length = (ofValue value).length ∧
        standard.Admits v (ofValue value).texts) expansion.variants variant ∧
      standard.edit grammar (ofValue value).texts slot text =
        .ok (Separator.join (ofValue value).texts variant.separators) ∧
      (Separator.join (ofValue value).texts variant.separators = form.value ↔
        variant.separators = (ofValue value).separators) ∧
      ((∀ v ∈ expansion.variants, v.length = (ofValue value).length →
          standard.Admits v (ofValue value).texts → v.separators = (ofValue value).separators) →
        standard.edit grammar (ofValue value).texts slot text = .ok form.value) := by
  obtain ⟨expansion, expanded, structured, formedIn⟩ := form_eq_ok.mp formed
  obtain ⟨items, tree, derivation⟩ := exists_derivation expanded structured
  obtain ⟨literals, forms⟩ := exists_forms formedIn
  obtain ⟨rfl, filled⟩ := forms.isFilledBy derivation complete
  -- The form's variant is filled, so there is a first such variant, maybe with other separators.
  obtain ⟨variant, first⟩ := exists_isFirst
    (p := fun v => v.length = (ofValue value).length ∧ standard.Admits v (ofValue value).texts)
    forms.variant ⟨filled.length, filled.admits⟩
  have edited : standard.edit grammar (ofValue value).texts slot text =
      .ok (Separator.join (ofValue value).texts variant.separators) := by
    have within := (List.getElem?_eq_some_iff.mp typed).1
    have nonempty : (ofValue value).texts.isEmpty = false := by
      rw [List.isEmpty_eq_false_iff]
      exact List.ne_nil_of_mem (List.mem_of_getElem? typed)
    refine edit_eq_ok.mpr ⟨Nat.le_of_lt within, expansion, expanded, structured, ?_⟩
    unfold editIn
    dsimp only
    rw [editedFragments_of_typed typed, nonempty, completed_of_isFirst first]
    rfl
  have written : form.value = Separator.join (ofValue value).texts (ofValue value).separators := by
    unfold Form.value Form.separators
    rw [forms.fragments, List.append_nil, filled.separators]
  have between : variant.separators.length = (ofValue value).texts.length - 1 := by
    rw [derivation.length_separators first.mem, first.1.1]
    rfl
  have unchanged : Separator.join (ofValue value).texts variant.separators = form.value ↔
      variant.separators = (ofValue value).separators := by
    rw [written]
    exact join_inj (split_isRow Separator.all value) between (length_split_separators _ value)
  refine ⟨expansion, variant, expanded, first, edited, unchanged, fun typedOnes => ?_⟩
  rw [edited, unchanged.mpr (typedOnes variant first.mem first.1.1 first.1.2)]

/-- Two lengths with a blank between them, or else with a comma. -/
def twoLengths : String :=
  "[ <length> <length> ] | [ <length> , <length> ]"

theorem edit_of_typed_comma :
    ∃ form, standard.form twoLengths "1px, 2px" = .ok form ∧ form.complete = true ∧
      (ofValue "1px, 2px").texts[0]? = some "1px" ∧
      ∃ expansion variant, standard.expand twoLengths = .ok expansion ∧
        IsFirst (fun v => v.length = (ofValue "1px, 2px").length ∧
          standard.Admits v (ofValue "1px, 2px").texts) expansion.variants variant ∧
        standard.edit twoLengths (ofValue "1px, 2px").texts 0 "1px" =
          .ok (Separator.join (ofValue "1px, 2px").texts variant.separators) ∧
        (Separator.join (ofValue "1px, 2px").texts variant.separators = form.value ↔
          variant.separators = (ofValue "1px, 2px").separators) ∧
        ((∀ v ∈ expansion.variants, v.length = (ofValue "1px, 2px").length →
            standard.Admits v (ofValue "1px, 2px").texts →
              v.separators = (ofValue "1px, 2px").separators) →
          standard.edit twoLengths (ofValue "1px, 2px").texts 0 "1px" = .ok form.value) := by
  have found : (standard.form twoLengths "1px, 2px").toOption.any (fun form => form.complete) =
      true := by decide +kernel
  obtain ⟨form, formed, complete⟩ := exists_ok_of_any found
  have typed : (ofValue "1px, 2px").texts[0]? = some "1px" := by decide +kernel
  exact ⟨form, formed, complete, typed, edit_of_typed formed complete typed⟩

/-- Two lengths with a comma are written with a blank, as the variant with the blank comes first. -/
theorem typed_fragment_changes_value :
    ¬ ∀ (grammar value text : String) (form : Form) (slot : Nat),
      standard.form grammar value = .ok form → form.complete = true →
        (ofValue value).texts[slot]? = some text →
          standard.edit grammar (ofValue value).texts slot text = .ok form.value := by
  intro claimed
  have found : (standard.form twoLengths "1px, 2px").toOption.any
      (fun form => form.complete && form.value == "1px, 2px") = true := by decide +kernel
  obtain ⟨form, formed, shown⟩ := exists_ok_of_any found
  obtain ⟨complete, written⟩ := Bool.and_eq_true_iff.mp shown
  have unchanged := claimed _ _ "1px" form 0 formed complete (by decide +kernel)
  have changed : (standard.edit twoLengths (ofValue "1px, 2px").texts 0 "1px").toOption =
      some "1px 2px" := by decide +kernel
  rw [unchanged, beq_iff_eq.mp written] at changed
  revert changed
  decide

end Context

end ValueGrammar
