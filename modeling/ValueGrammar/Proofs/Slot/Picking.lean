import ValueGrammar.Proofs.Slot.Menus
import ValueGrammar.Proofs.Slot.RoundTrip

/-!
What of a menu can be picked. An offer can be picked if some variant admits it behind the fragments
before its slot, for which the place that it is offered for need not be the one that takes it.
-/
namespace ValueGrammar

open Fragments

/-! ### Picking an offer -/

def Context.CanPick (context : Context) (grammar value : String) (slot : Nat) (text : String) :
    Prop :=
  ∃ result, context.edit grammar (ofValue value).texts slot text = .ok result

/-- A slot of a value emptied: the fragments behind it go too. -/
theorem editedFragments_ofValue_empty (value : String) (slot : Nat) :
    editedFragments (ofValue value).texts slot "" = (ofValue value).texts.take slot := by
  unfold editedFragments
  rw [map_trim_ofValue]
  rfl

/-- A fragment put into a slot of a value. -/
theorem editedFragments_ofValue {value text : String} (nonempty : text ≠ "")
    (trimmed : Text.trim text = text) (slot : Nat) :
    editedFragments (ofValue value).texts slot text =
      (ofValue value).texts.take slot ++ text :: (ofValue value).texts.drop (slot + 1) := by
  unfold editedFragments
  rw [map_trim_ofValue, trimmed]
  simp [nonempty]

theorem Fragments.Whole.ne_empty {text : String} (whole : Whole text) : text ≠ "" := by
  rintro rfl
  exact whole.fragment.nonempty rfl

/-- A text can be put into a slot of a value if nothing is left of the value, or if some variant admits
what is left of it up to the slot. -/
theorem canPick_iff_edited {grammar value text : String} {expansion : Expansion}
    (expanded : Context.standard.expand grammar = .ok expansion)
    (structured : expansion.isStructured = true) {slot : Nat}
    (within : slot ≤ (ofValue value).texts.length) :
    Context.standard.CanPick grammar value slot text ↔
      editedFragments (ofValue value).texts slot text = [] ∨ ∃ variant ∈ expansion.variants,
        Context.standard.Admits variant
          ((editedFragments (ofValue value).texts slot text).take (slot + 1)) := by
  obtain ⟨items, tree, derivation⟩ := exists_derivation expanded structured
  rw [← Context.editIn_ok_iff (fills_standard derivation),
    ← Context.edit_eq_editIn expanded structured within]
  rfl

/-- A whole text can be put into a slot of a value if some variant admits it behind the fragments
before the slot. -/
theorem canPick_iff {grammar value text : String} {expansion : Expansion}
    (expanded : Context.standard.expand grammar = .ok expansion)
    (structured : expansion.isStructured = true) (whole : Whole text) {slot : Nat}
    (within : slot ≤ (ofValue value).texts.length) :
    Context.standard.CanPick grammar value slot text ↔ ∃ variant ∈ expansion.variants,
      Context.standard.Admits variant ((ofValue value).texts.take slot ++ [text]) := by
  have front : (editedFragments (ofValue value).texts slot text).take (slot + 1) =
      (ofValue value).texts.take slot ++ [text] := by
    have length : ((ofValue value).texts.take slot).length = slot := by
      rw [List.length_take]
      omega
    rw [editedFragments_ofValue whole.ne_empty whole.trim, List.take_append, length, Nat.add_sub_cancel_left,
      List.take_of_length_le (by omega)]
    rfl
  have nonempty : editedFragments (ofValue value).texts slot text ≠ [] := by
    rw [editedFragments_ofValue whole.ne_empty whole.trim]
    simp
  rw [canPick_iff_edited expanded structured within, front, or_iff_right nonempty]

/-- An offer is one fragment. The variant that it comes from admits it behind the fragments before its
slot if the place that it is offered for is offerable. -/
theorem exists_offered_place {grammar value : String} {expansion : Expansion} {items : List Lexeme}
    {tree : Tree} (derivation : Derivation Context.standard grammar expansion items tree) {form : Form}
    (formed : Context.standard.formIn expansion value = .ok form) {slot : Nat} {menu : List Offer}
    (shown : form.menus[slot]? = some menu) {offer : Offer} (offered : offer ∈ menu) :
    slot ≤ (ofValue value).texts.length ∧ Whole offer.value ∧ ∃ variant ∈ expansion.variants,
      Context.standard.Admits variant ((ofValue value).texts.take slot) ∧
        ∃ place, variant.places[slot]? = some place ∧ place.key = offer.token ∧
          (place.IsOfferable → Context.standard.Admits variant
            ((ofValue value).texts.take slot ++ [offer.value])) := by
  obtain ⟨within, -, front, drafted, rfl⟩ :=
    (Context.getElem?_menus_of_formIn (Context.offers_standard derivation) formed).mp shown
  obtain ⟨variant, member, admits, place, category, placed, owner, rfl⟩ :=
    Context.exists_offering drafted offered
  have length : ((ofValue value).take slot).texts.length = slot := by
    rw [take, List.length_take]
    exact Nat.min_eq_left within
  rw [length] at placed
  have settled := isSettled_of_mem derivation member (List.mem_of_getElem? placed)
  obtain ⟨token, whole, takes⟩ := settled.offer owner
  refine ⟨within, whole, variant, member, admits, place, placed, token.symm,
    fun offerable => admits.append ?_⟩
  have next : (variant.places.drop slot).take 1 = [place] := by
    obtain ⟨bound, same⟩ := List.getElem?_eq_some_iff.mp placed
    rw [List.drop_eq_getElem_cons bound, same]
    rfl
  rw [length]
  exact next ▸ .cons (takes offerable) .nil

/-- An offer of a menu can be picked if and only if some variant admits it behind the fragments before
its slot. The place that it is offered for takes it if the place is offerable, so all offers for such
places can be picked. -/
theorem offer_picked_iff {grammar value : String} {form : Form}
    (formed : Context.standard.form grammar value = .ok form) {slot : Nat} {menu : List Offer}
    (shown : form.menus[slot]? = some menu) {offer : Offer} (offered : offer ∈ menu) :
    ∃ expansion, Context.standard.expand grammar = .ok expansion ∧
      (Context.standard.CanPick grammar value slot offer.value ↔ ∃ variant ∈ expansion.variants,
        Context.standard.Admits variant ((ofValue value).texts.take slot ++ [offer.value])) ∧
      ∃ variant ∈ expansion.variants,
        Context.standard.Admits variant ((ofValue value).texts.take slot) ∧
          ∃ place, variant.places[slot]? = some place ∧ place.key = offer.token ∧
            (place.IsOfferable →
              Context.standard.CanPick grammar value slot offer.value) := by
  obtain ⟨expansion, expanded, structured, formedIn⟩ := Context.form_eq_ok.mp formed
  obtain ⟨items, tree, derivation⟩ := exists_derivation expanded structured
  obtain ⟨within, whole, variant, member, admits, place, placed, token, taken⟩ :=
    exists_offered_place derivation formedIn shown offered
  have picked := canPick_iff expanded structured whole within
  exact ⟨expansion, expanded, picked, variant, member, admits, place, placed, token,
    fun offerable => picked.mpr ⟨variant, member, taken offerable⟩⟩

/-- A form whose first menu holds an offer. -/
theorem exists_offer_of_any {grammar value : String} (test : Offer → Bool)
    (found : (Context.standard.form grammar value).toOption.any (fun form =>
      form.menus[0]?.any fun menu => menu.any test) = true) :
    ∃ form menu offer, Context.standard.form grammar value = .ok form ∧
      form.menus[0]? = some menu ∧ offer ∈ menu ∧ test offer = true := by
  obtain ⟨form, formed, shows⟩ := exists_ok_of_any found
  obtain ⟨menu, shown, holds⟩ := (Option.any_eq_true _ _).mp shows
  obtain ⟨offer, offered, passed⟩ := List.any_eq_true.mp holds
  exact ⟨form, menu, offer, formed, shown, offered, passed⟩

theorem offer_picked_iff_number :
    ∃ form menu offer, Context.standard.form "auto | <number [0,1]>" "" = .ok form ∧
      form.menus[0]? = some menu ∧ offer ∈ menu ∧
      ∃ expansion, Context.standard.expand "auto | <number [0,1]>" = .ok expansion ∧
        (Context.standard.CanPick "auto | <number [0,1]>" "" 0 offer.value ↔
          ∃ variant ∈ expansion.variants,
            Context.standard.Admits variant ((ofValue "").texts.take 0 ++ [offer.value])) ∧
        ∃ variant ∈ expansion.variants,
          Context.standard.Admits variant ((ofValue "").texts.take 0) ∧
            ∃ place, variant.places[0]? = some place ∧ place.key = offer.token ∧
              (place.IsOfferable →
                Context.standard.CanPick "auto | <number [0,1]>" "" 0 offer.value) := by
  have found : (Context.standard.form "auto | <number [0,1]>" "").toOption.any (fun form =>
      form.menus[0]?.any fun menu => menu.any fun offer => offer.value == "0") = true := by
    decide +kernel
  obtain ⟨form, menu, offer, formed, shown, offered, -⟩ := exists_offer_of_any _ found
  exact ⟨form, menu, offer, formed, shown, offered, offer_picked_iff formed shown offered⟩

/-- Zero is offered for positive integers, and refused when it is picked. -/
theorem offer_not_picked :
    ¬ ∀ (grammar value : String) (form : Form) (slot : Nat) (menu : List Offer) (offer : Offer),
      Context.standard.form grammar value = .ok form → form.menus[slot]? = some menu →
        offer ∈ menu → Context.standard.CanPick grammar value slot offer.value := by
  intro claimed
  have found : (Context.standard.form "<integer [1,∞]>" "").toOption.any (fun form =>
      form.menus[0]?.any fun menu => menu.any fun offer => offer.value == "0") = true := by
    decide +kernel
  obtain ⟨form, menu, offer, formed, shown, offered, zero⟩ := exists_offer_of_any _ found
  obtain ⟨result, edited⟩ := claimed _ _ form 0 menu offer formed shown offered
  rw [beq_iff_eq.mp zero] at edited
  have refused : (Context.standard.edit "<integer [1,∞]>" (ofValue "").texts 0 "0").toOption =
      none := by decide +kernel
  rw [edited] at refused
  cases refused

end ValueGrammar
