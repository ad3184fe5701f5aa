import ValueGrammar.Proofs.Slot.Menus

/-!
Beginnings of values. The beginning of a value is suited by all variants that suit the value, so it
has a form if the value has one. As every menu depends on the fragments before its slot alone, the
beginning has the menus of the value, up to the one behind its own fragments.
-/
namespace ValueGrammar

open Fragments

namespace Context

variable {grammar value other : String} {expansion : Expansion} {form otherForm : Form}

/-- Values that begin in the same way have the same menu behind that beginning. -/
theorem getElem?_menus_congr {context : Context} (offers : context.Offers expansion)
    (formed : context.formIn expansion value = .ok form)
    (otherFormed : context.formIn expansion other = .ok otherForm) {slot : Nat}
    (same : (ofValue other).take slot = (ofValue value).take slot) :
    otherForm.menus[slot]? = form.menus[slot]? := by
  have bounds : slot ≤ (ofValue other).length ↔ slot ≤ (ofValue value).length := by
    have lengths := congrArg Fragments.length same
    rw [length_take, length_take] at lengths
    omega
  ext menu
  rw [getElem?_menus_of_formIn offers formed, getElem?_menus_of_formIn offers otherFormed, same,
    bounds]

theorem length_le_menus {context : Context} (formed : context.formIn expansion value = .ok form) :
    (ofValue value).length ≤ form.menus.length := by
  obtain ⟨draft, drafted, formedOf⟩ := formIn_eq_ok.mp formed
  obtain ⟨found, -, literals, -, rfl⟩ := formOf_eq_ok.mp formedOf
  have length : draft.length = (ofValue value).length := length_of_draft drafted
  rw [← length]
  unfold menus
  split <;> simp

/-- The beginning of a value has the menus of the value up to the one behind it. -/
theorem exists_front (fills : standard.Fills expansion) (offers : standard.Offers expansion)
    (formed : standard.formIn expansion value = .ok form) {count : Nat}
    (within : count ≤ (ofValue value).length) :
    ∃ front, standard.formIn expansion ((ofValue value).take count).value = .ok front ∧
      front.menus = form.menus.take (count + 1) := by
  obtain ⟨member, suits⟩ := (completes_of_formIn formed).suits
  have suitsFront := suits.take count
  rw [← ofValue_take] at suitsFront
  obtain ⟨front, frontFormed⟩ := (exists_formIn_iff fills).mpr ⟨form.variant, member, suitsFront⟩
  -- Up to the end of the beginning the slots have the same fragments before them.
  refine ⟨front, frontFormed, List.ext_getElem? fun slot => ?_⟩
  rw [List.getElem?_take]
  split
  · next inside =>
    apply getElem?_menus_congr offers formed frontFormed
    rw [ofValue_take, take_take _ (Nat.le_of_lt_succ inside)]
  · next beyond =>
    apply Option.eq_none_iff_forall_ne_some.mpr
    intro menu shown
    obtain ⟨bound, -⟩ := (getElem?_menus_of_formIn offers frontFormed).mp shown
    rw [ofValue_take, length_take] at bound
    omega

/-- Every beginning of a value that has a form has one too, with the menus of the value up to the
one behind the beginning. Menus look backwards: two values that have forms and begin in the same way
have the same menu behind that beginning. -/
theorem form_of_beginning (formed : standard.form grammar value = .ok form) :
    (ofValue value).length ≤ form.menus.length ∧
    (∀ count ≤ (ofValue value).length, ∃ front,
      standard.form grammar ((ofValue value).take count).value = .ok front ∧
        front.menus = form.menus.take (count + 1)) ∧
    ∀ other otherForm slot, standard.form grammar other = .ok otherForm →
      (ofValue other).take slot = (ofValue value).take slot →
        otherForm.menus[slot]? = form.menus[slot]? := by
  obtain ⟨expansion, expanded, structured, formedIn⟩ := form_eq_ok.mp formed
  obtain ⟨items, tree, derivation⟩ := exists_derivation expanded structured
  have offers := offers_standard derivation
  refine ⟨length_le_menus formedIn, fun count within => ?_,
    fun other otherForm slot otherFormed same => ?_⟩
  · obtain ⟨front, frontFormed, menus⟩ :=
      exists_front (fills_standard derivation) offers formedIn within
    exact ⟨front, form_eq_ok.mpr ⟨expansion, expanded, structured, frontFormed⟩, menus⟩
  · rw [form_eq_formIn expanded structured] at otherFormed
    exact getElem?_menus_congr offers formedIn otherFormed same

theorem form_of_beginning_open :
    ∃ form, standard.form "<length> <url>" "1px url((a)" = .ok form ∧
      (ofValue "1px url((a)").length ≤ form.menus.length ∧
      (∀ count ≤ (ofValue "1px url((a)").length, ∃ front,
        standard.form "<length> <url>" ((ofValue "1px url((a)").take count).value = .ok front ∧
          front.menus = form.menus.take (count + 1)) ∧
      ∀ other otherForm slot, standard.form "<length> <url>" other = .ok otherForm →
        (ofValue other).take slot = (ofValue "1px url((a)").take slot →
          otherForm.menus[slot]? = form.menus[slot]? := by
  have found : (standard.form "<length> <url>" "1px url((a)").toOption.any
      (fun form => form.complete) = true := by decide +kernel
  obtain ⟨form, formed, -⟩ := exists_ok_of_any found
  exact ⟨form, formed, form_of_beginning formed⟩

end Context

end ValueGrammar
