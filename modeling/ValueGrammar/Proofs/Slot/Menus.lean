import ValueGrammar.Proofs.Slot.Verdict

/-!
Menus. A menu holds some of the offers it is made of, and none only if there are none. The menu of
a slot is the one behind the fragments before the slot, and holds what the variants that suit them
offer there. Every fragment of a value that has a form stands in a slot with such a menu.
-/
namespace ValueGrammar

open Fragments

/-! ### Offers of a menu -/

theorem Offer.mem_of_mem_menu {offers : List Offer} {offer : Offer}
    (member : offer ∈ Offer.menu offers) : offer ∈ offers := by
  have kept {menu : List Offer} (inside : offer ∈ offers.foldl
      (fun menu offer => if offer.isFresh menu then menu ++ [offer] else menu) menu) :
      offer ∈ menu ∨ offer ∈ offers := by
    clear member
    induction offers generalizing menu with
    | nil => exact Or.inl inside
    | cons first offers ih =>
      rcases ih inside with before | later
      · dsimp only at before
        split at before
        · rcases List.mem_append.mp before with old | new
          · exact Or.inl old
          · exact Or.inr (List.mem_singleton.mp new ▸ List.mem_cons_self)
        · exact Or.inl before
      · exact Or.inr (List.mem_cons_of_mem first later)
  exact (kept member).resolve_left List.not_mem_nil

/-- The first offer is fresh, so a menu of some offers is not empty. -/
theorem Offer.menu_ne_nil {offers : List Offer} (offered : offers ≠ []) :
    Offer.menu offers ≠ [] := by
  have grows (offers menu : List Offer) : menu <+: offers.foldl
      (fun menu offer => if offer.isFresh menu then menu ++ [offer] else menu) menu := by
    induction offers generalizing menu with
    | nil => exact List.prefix_refl menu
    | cons offer offers ih =>
      refine List.IsPrefix.trans ?_ (ih _)
      dsimp only
      split
      · exact List.prefix_append menu [offer]
      · exact List.prefix_refl menu
  cases offers with
  | nil => exact absurd rfl offered
  | cons offer offers =>
    intro empty
    have kept : [offer] <+: Offer.menu (offer :: offers) := grows offers [offer]
    rw [empty] at kept
    cases List.prefix_nil.mp kept

namespace Context

variable {context : Context} {expansion : Expansion} {value : String} {fragments : Fragments}

/-- Every place of every variant has a category that makes an offer for it. -/
def Offers (context : Context) (expansion : Expansion) : Prop :=
  ∀ variant ∈ expansion.variants, ∀ place ∈ variant.places,
    ∃ category, context.owner? place.key = some category

/-- In the standard context the keyword category owns keywords, and the others own the primitive
symbols. -/
theorem offers_standard {grammar : String} {items : List Lexeme} {tree : Tree}
    (derivation : Derivation standard grammar expansion items tree) :
    standard.Offers expansion := by
  intro variant member place inside
  rcases (isSettled_of_mem derivation member inside).cases with ⟨parsed, -, -⟩ | primitive
  · have known : Category.keyword ∈ standard.categories := by
      simp [standard, Category.standard]
    have owns : Category.keyword.owns standard.registry place.key = true := by
      simp [Category.keyword, parsed, Reference.isKeyword]
    exact Option.isSome_iff_exists.mp (List.find?_isSome.mpr ⟨_, known, owns⟩)
  · obtain ⟨literal, category, provides⟩ := Catalog.exists_provides primitive
    exact ⟨category, provides.owner⟩

/-! ### The menu behind fragments -/

/-- What a menu offers is offered for a place of a variant that admits the fragments before it. -/
theorem exists_offering {draft : Draft} {separators? : Option (List Separator)}
    {texts : List String} (drafted : context.draft texts separators? = .ok draft)
    {variants : List Variant} {offer : Offer}
    (offered : offer ∈ context.menu variants draft) :
    ∃ variant ∈ variants, context.Admits variant texts ∧
      ∃ place category, variant.places[texts.length]? = some place ∧
        context.owner? place.key = some category ∧
          offer = category.offer context.registry place.key := by
  obtain ⟨variant, inside, given⟩ := List.mem_filterMap.mp (Offer.mem_of_mem_menu offered)
  obtain ⟨member, fits⟩ := List.mem_filter.mp inside
  unfold offerAt? at given
  rw [length_of_draft drafted] at given
  obtain ⟨place, found, made⟩ := Option.bind_eq_some_iff.mp given
  obtain ⟨category, owner, rfl⟩ := Option.map_eq_some_iff.mp made
  obtain ⟨admits, -⟩ := (fits_iff drafted variant).mp fits
  exact ⟨variant, member, admits, place, category, found, owner, rfl⟩

/-- A longer variant that suits the fragments makes an offer behind them. -/
theorem menu_ne_nil (offers : context.Offers expansion) {draft : Draft}
    (drafted : context.draft fragments.texts (some fragments.separators) = .ok draft)
    (count : fragments.separators.length = fragments.length - 1) {variant : Variant}
    (member : variant ∈ expansion.variants) (suits : context.Suits variant fragments)
    (longer : fragments.length < variant.length) : context.menu expansion.variants draft ≠ [] := by
  obtain ⟨place, placed⟩ : ∃ place, variant.places[fragments.length]? = some place :=
    ⟨_, List.getElem?_eq_getElem longer⟩
  obtain ⟨category, owner⟩ := offers variant member place (List.mem_of_getElem? placed)
  have length : draft.length = fragments.length := length_of_draft drafted
  have made : context.offerAt? draft.length variant =
      some (category.offer context.registry place.key) := by
    rw [offerAt?, length, placed, Option.bind_some, owner, Option.map_some]
  have fits := (fits_iff_suits drafted count).mpr suits
  exact Offer.menu_ne_nil (List.ne_nil_of_mem
    (List.mem_filterMap.mpr ⟨variant, List.mem_filter.mpr ⟨member, fits⟩, made⟩))

/-! ### The menus of a form -/

theorem draft_take {draft : Draft}
    (drafted : context.draft fragments.texts (some fragments.separators) = .ok draft)
    (count : Nat) :
    context.draft (fragments.take count).texts (some (fragments.take count).separators) =
      .ok (draft.take count) := by
  obtain ⟨known, each⟩ := draft_eq_ok.mp drafted
  refine draft_eq_ok.mpr ⟨?_, List.forall₂_take count each⟩
  rw [Draft.take, known]
  rfl

/-- The menus of a draft: one for every fragment, and the one behind them unless it is empty. -/
theorem getElem?_menus {variants : List Variant} {draft : Draft}
    (whole : draft.take draft.length = draft) {slot : Nat} {menu : List Offer} :
    (context.menus variants draft)[slot]? = some menu ↔
      menu = context.menu variants (draft.take slot) ∧
        (slot < draft.length ∨ slot = draft.length ∧ menu ≠ []) := by
  have occupied : ((List.range draft.length).map fun i =>
      context.menu variants (draft.take i))[slot]? =
        if slot < draft.length then some (context.menu variants (draft.take slot)) else none := by
    rw [List.getElem?_map]
    split
    · next inside => rw [List.getElem?_range inside, Option.map_some]
    · next beyond => rw [List.getElem?_eq_none (by simpa using beyond), Option.map_none]
  have tail : context.menus variants draft =
      (List.range draft.length).map (fun i => context.menu variants (draft.take i)) ++
        if context.menu variants draft = [] then [] else [context.menu variants draft] := by
    unfold menus
    split
    · next empty => rw [if_pos empty, List.append_nil]
    · next nonempty => rw [if_neg nonempty]
  rw [tail, List.getElem?_append, occupied, List.length_map, List.length_range]
  by_cases inside : slot < draft.length
  · simp [inside, eq_comm]
  · rw [if_neg inside]
    by_cases last : slot = draft.length
    · subst last
      rw [whole, Nat.sub_self]
      by_cases empty : context.menu variants draft = []
      · simp [empty]
      · rw [if_neg empty, List.getElem?_cons_zero, Option.some.injEq]
        constructor
        · intro same
          exact ⟨same.symm, Or.inr ⟨rfl, same ▸ empty⟩⟩
        · intro given
          exact given.1.symm
    · have beyond : (if context.menu variants draft = [] then []
          else [context.menu variants draft])[slot - draft.length]? = none := by
        apply List.getElem?_eq_none
        split
        · exact Nat.zero_le _
        · rw [List.length_singleton]
          omega
      rw [beyond]
      simp [inside, last]

/-- The menu of a slot is the one behind the fragments before it. There is one for every fragment of
a value that has a form, and one behind them if it is not empty. -/
theorem getElem?_menus_of_formIn (offers : context.Offers expansion) {form : Form}
    (formed : context.formIn expansion value = .ok form) {slot : Nat} {menu : List Offer} :
    form.menus[slot]? = some menu ↔ slot ≤ (ofValue value).length ∧ menu ≠ [] ∧
      ∃ front, context.draft ((ofValue value).take slot).texts
          (some ((ofValue value).take slot).separators) = .ok front ∧
        menu = context.menu expansion.variants front := by
  obtain ⟨member, suits⟩ := (completes_of_formIn formed).suits
  obtain ⟨draft, drafted, formedOf⟩ := formIn_eq_ok.mp formed
  obtain ⟨found, -, literals, -, rfl⟩ := formOf_eq_ok.mp formedOf
  have length : draft.length = (ofValue value).length := length_of_draft drafted
  have whole : draft.take draft.length = draft := by
    have again := draft_take drafted draft.length
    rw [length, take_length, drafted] at again
    rw [length]
    exact (Except.ok.inj again).symm
  have front := draft_take drafted slot
  -- Before the last fragment the matched variant itself has something to offer.
  have occupied (inside : slot < (ofValue value).length) :
      context.menu expansion.variants (draft.take slot) ≠ [] := by
    have shorter : ((ofValue value).take slot).length = slot := by
      rw [length_take]
      omega
    have between := length_separators_take (length_split_separators Separator.all value) slot
    refine menu_ne_nil offers front between member (suits.take slot) ?_
    rw [shorter]
    exact Nat.lt_of_lt_of_le inside suits.length_le
  simp only [front, Except.ok.injEq, exists_eq_left', getElem?_menus whole, length]
  constructor
  · intro given
    obtain ⟨rfl, inside | ⟨rfl, nonempty⟩⟩ := given
    · exact ⟨Nat.le_of_lt inside, occupied inside, rfl⟩
    · exact ⟨Nat.le_refl _, nonempty, rfl⟩
  · intro given
    obtain ⟨within, nonempty, same⟩ := given
    exact ⟨same, (Nat.lt_or_eq_of_le within).imp_right fun last => ⟨last, nonempty⟩⟩

end Context

end ValueGrammar
