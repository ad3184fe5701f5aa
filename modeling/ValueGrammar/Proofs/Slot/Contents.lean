import ValueGrammar.Proofs.Slot.Ownership
import ValueGrammar.Proofs.Slot.Prefixes

/-!
The contents of menus. Of the offers that a menu compares as one it holds the first, and no other. The
menu of a slot therefore has every keyword that some variant has there behind the fragments before the
slot, and of every other category one entry, which the first variant with a token of the category makes.
-/
namespace ValueGrammar

open Fragments

/-! ### What a menu keeps -/

namespace Offer

/-- What a menu compares of an offer: of a keyword the literal, of any other token the category. -/
def label (offer : Offer) : OfferKind × String :=
  match offer.kind with
  | .keyword => (.keyword, offer.value)
  | .token => (.token, offer.category)

theorem isFresh_iff {menu : List Offer} {offer : Offer} :
    offer.isFresh menu = true ↔ ∀ other ∈ menu, other.label ≠ offer.label := by
  rw [isFresh, List.all_eq_true]
  refine forall₂_congr fun other _ => ?_
  cases here : offer.kind <;> cases there : other.kind <;> simp [label, here, there]

theorem menu_append_singleton (offers : List Offer) (offer : Offer) :
    menu (offers ++ [offer]) =
      if offer.isFresh (menu offers) then menu offers ++ [offer] else menu offers := by
  rw [menu, List.foldl_concat]
  rfl

/-- A menu holds the first offer of each label. -/
theorem mem_menu_iff {offers : List Offer} {offer : Offer} :
    offer ∈ menu offers ↔ IsFirst (fun other => other.label = offer.label) offers offer := by
  induction offers using List.reverseRecOn generalizing offer with
  | nil => simp [menu, IsFirst]
  | append_singleton offers last ih =>
    have fresh_iff : last.isFresh (menu offers) = true ↔
        ∀ other ∈ offers, other.label ≠ last.label := by
      rw [isFresh_iff]
      constructor
      · intro fresh other member same
        obtain ⟨first, isFirst⟩ := exists_isFirst (p := fun o => o.label = last.label) member same
        refine fresh first (ih.mpr ?_) isFirst.1
        rw [isFirst.1]
        exact isFirst
      · intro fresh other member
        exact fresh other (mem_of_mem_menu member)
    have alone : IsFirst (fun other => other.label = offer.label) [last] offer ↔ offer = last := by
      simp only [isFirst_cons]
      constructor
      · rintro (⟨-, same⟩ | ⟨-, none⟩)
        · exact same
        · cases none.mem
      · rintro rfl
        exact Or.inl ⟨rfl, rfl⟩
    rw [menu_append_singleton, isFirst_append, alone, ← ih]
    split
    · next fresh =>
      rw [List.mem_append, List.mem_singleton, and_iff_right_of_imp]
      rintro rfl
      exact fresh_iff.mp fresh
    · next stale =>
      rw [iff_self_or]
      rintro ⟨none, rfl⟩
      exact absurd (fresh_iff.mpr none) stale

theorem nodup_menu (offers : List Offer) : (menu offers).Nodup := by
  induction offers using List.reverseRecOn with
  | nil => exact List.nodup_nil
  | append_singleton offers last ih =>
    rw [menu_append_singleton]
    split
    · next fresh =>
      refine List.Nodup.append ih (List.nodup_singleton last) ?_
      rw [List.disjoint_singleton]
      exact fun member => isFresh_iff.mp fresh last member rfl
    · exact ih

end Offer

namespace Context

variable {context : Context} {expansion : Expansion} {fragments : Fragments}

/-! ### Variants that go on -/

theorem mem_of_owner {key : String} {category : Category}
    (owner : context.owner? key = some category) : category ∈ context.categories :=
  List.mem_of_find?_eq_some owner

theorem owns_of_owner {key : String} {category : Category}
    (owner : context.owner? key = some category) : category.owns context.registry key = true := by
  unfold owner? Category.owner? at owner
  have passed := List.find?_some owner
  exact passed

/-- A longer variant that fragments are the beginning of. -/
structure Continues (context : Context) (fragments : Fragments) (variant : Variant) : Prop where
  suits : context.Suits variant fragments
  longer : fragments.length < variant.length

/-- A variant whose token at a position belongs to a category. -/
def OwnsAt (context : Context) (category : Category) (position : Nat) (variant : Variant) : Prop :=
  ∃ place, variant.places[position]? = some place ∧ context.owner? place.key = some category

theorem offerAt?_eq_some {variant : Variant} {position : Nat} {offer : Offer} :
    context.offerAt? position variant = some offer ↔ ∃ place category,
      variant.places[position]? = some place ∧ context.owner? place.key = some category ∧
        offer = category.offer context.registry place.key := by
  simp only [offerAt?, Option.bind_eq_some_iff, Option.map_eq_some_iff]
  constructor
  · rintro ⟨place, placed, category, owner, rfl⟩
    exact ⟨place, category, placed, owner, rfl⟩
  · rintro ⟨place, category, placed, owner, rfl⟩
    exact ⟨place, placed, category, owner, rfl⟩

/-- The menu behind fragments holds of the offers with one label the one that the first variant with
such an offer makes. -/
theorem mem_menu_iff {draft : Draft}
    (drafted : context.draft fragments.texts (some fragments.separators) = .ok draft)
    (count : fragments.separators.length = fragments.length - 1) {variants : List Variant}
    {offer : Offer} :
    offer ∈ context.menu variants draft ↔
      ∃ variant, IsFirst (fun v => context.Continues fragments v ∧
          ∃ other, context.offerAt? fragments.length v = some other ∧ other.label = offer.label)
        variants variant ∧ context.offerAt? fragments.length variant = some offer := by
  have length : draft.length = fragments.length := length_of_draft drafted
  have offers (v : Variant) (other : Offer) :
      (if context.fits draft v then context.offerAt? fragments.length v else none) = some other ↔
        context.Continues fragments v ∧ context.offerAt? fragments.length v = some other := by
    rw [Option.ite_none_right_eq_some, fits_iff_suits drafted count]
    refine and_congr_left fun made => ⟨fun suits => ⟨suits, ?_⟩, fun goesOn => goesOn.suits⟩
    obtain ⟨place, category, placed, -⟩ := offerAt?_eq_some.mp made
    exact (List.getElem?_eq_some_iff.mp placed).1
  simp only [menu, Offer.mem_menu_iff, List.filterMap_filter, isFirst_filterMap, length,
    Option.mem_def, offers, and_assoc, exists_and_left]
  refine exists_congr fun variant => ?_
  constructor
  · rintro ⟨first, -, made⟩
    exact ⟨first, made⟩
  · rintro ⟨first, made⟩
    exact ⟨first, first.1.1, made⟩

end Context

/-! ### Offers of the standard categories -/

namespace Category

/-- The standard categories have distinct names. -/
theorem eq_of_key {category category' : Category} (known : category ∈ standard)
    (known' : category' ∈ standard) (same : category.key = category'.key) :
    category = category' :=
  List.inj_on_of_nodup_map (show (standard.map (·.key)).Nodup by decide) known known' same

theorem label_keyword (registry : Registry) (name : String) :
    (keyword.offer registry name).label = (.keyword, name) := rfl

theorem label_of_not_keyword {category : Category} (known : category ∈ standard)
    (other : category.key ≠ "keyword") (registry : Registry) (key : String) :
    (category.offer registry key).label = (.token, category.key) := by
  rw [offer_of_not_keyword known other]
  rfl

/-- The other categories own symbols with a definition only. -/
theorem not_owns_of_undefined {category : Category} (known : category ∈ standard)
    (other : category.key ≠ "keyword") {key : String} (unknown : Registry.builtin.find? key = none) :
    category.owns .builtin key = false := by
  have different (symbol : String) (primitive : symbol ∈ Catalog.primitiveKeys) : key ≠ symbol := by
    rintro rfl
    obtain ⟨definition, found⟩ := Catalog.exists_definition primitive
    simp [unknown] at found
  simp only [standard, List.mem_cons, List.not_mem_nil, or_false] at known
  rcases known with rfl | rfl | rfl | rfl | rfl | rfl | rfl | rfl
  · simp [function, ownsFunction, unknown]
  · simp [link, different "<url>" (by decide),
      different "<string>" (by decide)]
  · simp [color, different "<color>" (by decide)]
  · simp [integer, different "<integer>" (by decide)]
  · simp [number, different "<number>" (by decide)]
  · simp [length, different "<length>" (by decide),
      different "<percentage>" (by decide)]
  · exact absurd rfl other
  · simp [composed, unknown]

end Category

namespace Place

variable {place : Place}

theorem IsSettled.owner_keyword (settled : place.IsSettled) {name : String}
    (isOf : place.IsOf (.keyword name)) :
    place.key = name ∧ Context.standard.owner? place.key = some Category.keyword := by
  have named : place.key = name := isOf.key
  refine ⟨named, ?_⟩
  obtain ⟨-, letters⟩ : name.toList ≠ [] ∧ ∀ c ∈ name.toList, Text.isIdentifierChar c = true :=
    Reference.proper_of_parse isOf.parsed
  have unknown : Registry.builtin.find? place.key = none := named ▸ Catalog.find?_keyword letters
  rcases settled.cases with ⟨parsed, -, -⟩ | primitive
  · have listed : Category.keyword ∈ Context.standard.categories := by
      simp [Context.standard, Category.standard]
    obtain ⟨category, owner⟩ := Context.exists_owner_keyword listed parsed
    have known := Context.mem_of_owner owner
    by_cases keyword : category.key = "keyword"
    · rw [← Category.eq_keyword known keyword]
      exact owner
    · have passes := Context.owns_of_owner owner
      rw [show Context.standard.registry = .builtin from rfl,
        Category.not_owns_of_undefined known keyword unknown] at passes
      cases passes
  · obtain ⟨definition, found⟩ := Catalog.exists_definition primitive
    simp [unknown] at found

/-- The keywords are what the category of keywords owns. -/
theorem IsSettled.isOf_keyword (settled : place.IsSettled)
    (owner : Context.standard.owner? place.key = some Category.keyword) :
    place.IsOf (.keyword place.key) := by
  obtain ⟨reference, isOf, final⟩ := settled
  rcases Catalog.cases_of_isFinal isOf.parsed final with ⟨name, rfl, -, -⟩ | primitive
  · rw [show place.key = name from isOf.key]
    exact isOf
  · obtain ⟨literal, category, provides⟩ := Catalog.exists_provides primitive
    have same := provides.owner
    rw [← isOf.key, owner, Option.some.injEq] at same
    exact absurd (congrArg Category.key same.symm) provides.notKeyword

end Place

/-! ### Main result -/

def Variant.HasKeyword (variant : Variant) (position : Nat) (name : String) : Prop :=
  ∃ place, variant.places[position]? = some place ∧ place.IsOf (.keyword name)

namespace Context

/-- What the menu behind fragments holds: every keyword that some variant going on has there, and of
every other category the offer of the first such variant with a token of the category. -/
structure IsMenu (variants : List Variant) (fragments : Fragments) (menu : List Offer) : Prop where
  keyword : ∀ name, Category.keyword.offer .builtin name ∈ menu ↔
    ∃ variant ∈ variants, standard.Continues fragments variant ∧
      variant.HasKeyword fragments.length name
  represented : ∀ category ∈ Category.standard, category.key ≠ "keyword" → ∀ variant place,
    IsFirst (fun v => standard.Continues fragments v ∧
      standard.OwnsAt category fragments.length v) variants variant →
    variant.places[fragments.length]? = some place →
      ∀ offer, offer ∈ menu ∧ offer.category = category.key ↔
        offer = category.offer .builtin place.key
  absent : ∀ category ∈ Category.standard, category.key ≠ "keyword" →
    (∀ variant ∈ variants, standard.Continues fragments variant →
      ¬ standard.OwnsAt category fragments.length variant) →
      ∀ offer ∈ menu, offer.category ≠ category.key
  only : ∀ offer ∈ menu, (∃ name, offer = Category.keyword.offer .builtin name) ∨
    ∃ category ∈ Category.standard, category.key ≠ "keyword" ∧ offer.category = category.key
  nodup : menu.Nodup

/-- The offer that a variant makes at a position, by its label. -/
theorem exists_keyword_offer_iff {variant : Variant}
    (settled : ∀ place ∈ variant.places, place.IsSettled) {position : Nat} {name : String} :
    (∃ other, standard.offerAt? position variant = some other ∧ other.label = (.keyword, name)) ↔
      variant.HasKeyword position name := by
  constructor
  · rintro ⟨other, made, labelled⟩
    obtain ⟨place, category, placed, owner, rfl⟩ := offerAt?_eq_some.mp made
    have known := Context.mem_of_owner owner
    by_cases keyword : category.key = "keyword"
    · obtain rfl := Category.eq_keyword known keyword
      rw [Category.label_keyword, Prod.mk.injEq] at labelled
      have isOf := (settled place (List.mem_of_getElem? placed)).isOf_keyword owner
      rw [labelled.2] at isOf
      exact ⟨place, placed, isOf⟩
    · simp [Category.label_of_not_keyword known keyword] at labelled
  · rintro ⟨place, placed, isOf⟩
    obtain ⟨named, owner⟩ := (settled place (List.mem_of_getElem? placed)).owner_keyword isOf
    refine ⟨_, offerAt?_eq_some.mpr ⟨place, _, placed, owner, rfl⟩, ?_⟩
    rw [Category.label_keyword, named]

theorem exists_category_offer_iff {category : Category} (known : category ∈ Category.standard)
    (other : category.key ≠ "keyword") {variant : Variant} {position : Nat} :
    (∃ offer, standard.offerAt? position variant = some offer ∧
        offer.label = (.token, category.key)) ↔ standard.OwnsAt category position variant := by
  constructor
  · rintro ⟨offer, made, labelled⟩
    obtain ⟨place, category', placed, owner, rfl⟩ := offerAt?_eq_some.mp made
    have known' := Context.mem_of_owner owner
    by_cases keyword : category'.key = "keyword"
    · rw [Category.eq_keyword known' keyword, Category.label_keyword] at labelled
      simp at labelled
    · rw [Category.label_of_not_keyword known' keyword, Prod.mk.injEq] at labelled
      rw [Category.eq_of_key known' known labelled.2] at owner
      exact ⟨place, placed, owner⟩
  · rintro ⟨place, placed, owner⟩
    exact ⟨_, offerAt?_eq_some.mpr ⟨place, category, placed, owner, rfl⟩,
      Category.label_of_not_keyword known other _ _⟩

section Standard

variable {draft : Draft} {variants : List Variant}

theorem mem_menu_keyword_iff
    (settled : ∀ variant ∈ variants, ∀ place ∈ variant.places, place.IsSettled)
    (drafted : standard.draft fragments.texts (some fragments.separators) = .ok draft)
    (count : fragments.separators.length = fragments.length - 1) {name : String} :
    Category.keyword.offer .builtin name ∈ standard.menu variants draft ↔
      ∃ variant ∈ variants, standard.Continues fragments variant ∧
        variant.HasKeyword fragments.length name := by
  rw [mem_menu_iff drafted count, Category.label_keyword]
  constructor
  · rintro ⟨variant, first, -⟩
    exact ⟨variant, first.mem, first.1.1,
      (exists_keyword_offer_iff (settled variant first.mem)).mp first.1.2⟩
  · rintro ⟨variant, member, goesOn, keyword⟩
    obtain ⟨first, isFirst⟩ := exists_isFirst (p := fun v => standard.Continues fragments v ∧
        ∃ other, standard.offerAt? fragments.length v = some other ∧ other.label = (.keyword, name))
      member ⟨goesOn, (exists_keyword_offer_iff (settled variant member)).mpr keyword⟩
    refine ⟨first, isFirst, ?_⟩
    obtain ⟨place, placed, isOf⟩ :=
      (exists_keyword_offer_iff (settled first isFirst.mem)).mp isFirst.1.2
    obtain ⟨named, owner⟩ :=
      (settled first isFirst.mem place (List.mem_of_getElem? placed)).owner_keyword isOf
    exact offerAt?_eq_some.mpr ⟨place, _, placed, owner, by rw [named]; rfl⟩

/-- Of a category other than that of keywords the menu has what the first variant offers for it. -/
theorem mem_menu_category_iff
    (drafted : standard.draft fragments.texts (some fragments.separators) = .ok draft)
    (count : fragments.separators.length = fragments.length - 1) {category : Category}
    (known : category ∈ Category.standard) (other : category.key ≠ "keyword") {offer : Offer} :
    offer ∈ standard.menu variants draft ∧ offer.category = category.key ↔
      ∃ variant place, IsFirst (fun v => standard.Continues fragments v ∧
          standard.OwnsAt category fragments.length v) variants variant ∧
        variant.places[fragments.length]? = some place ∧
          offer = category.offer .builtin place.key := by
  -- Offers of one category have one label, so the first offer of it is made by the first variant that
  -- has a token of it, whatever its key.
  have first_iff {variant : Variant} (labelled : offer.label = (.token, category.key)) :
      IsFirst (fun v => standard.Continues fragments v ∧
          ∃ made, standard.offerAt? fragments.length v = some made ∧ made.label = offer.label)
        variants variant ↔
      IsFirst (fun v => standard.Continues fragments v ∧
        standard.OwnsAt category fragments.length v) variants variant := by
    simp only [labelled, exists_category_offer_iff known other]
  rw [mem_menu_iff drafted count]
  constructor
  · rintro ⟨⟨variant, first, made⟩, named⟩
    obtain ⟨place, category', placed, owner, rfl⟩ := offerAt?_eq_some.mp made
    have known' := mem_of_owner owner
    have same : category' = category := by
      refine Category.eq_of_key known' known ?_
      by_cases keyword : category'.key = "keyword"
      · rw [Category.eq_keyword known' keyword] at named
        exact absurd named.symm other
      · rw [Category.offer_of_not_keyword known' keyword] at named
        exact named
    subst same
    exact ⟨variant, place, (first_iff (Category.label_of_not_keyword known other _ _)).mp first,
      placed, rfl⟩
  · rintro ⟨variant, place, first, placed, rfl⟩
    obtain ⟨-, place', placed', owner⟩ := first.1
    obtain rfl : place' = place := by simpa [placed] using placed'.symm
    refine ⟨⟨variant, (first_iff (Category.label_of_not_keyword known other _ _)).mpr first,
      offerAt?_eq_some.mpr ⟨place', category, placed, owner, rfl⟩⟩, ?_⟩
    rw [Category.offer_of_not_keyword known other]
    rfl

theorem isMenu_menu (settled : ∀ variant ∈ variants, ∀ place ∈ variant.places, place.IsSettled)
    (drafted : standard.draft fragments.texts (some fragments.separators) = .ok draft)
    (count : fragments.separators.length = fragments.length - 1) :
    IsMenu variants fragments (standard.menu variants draft) := by
  refine ⟨fun name => mem_menu_keyword_iff settled drafted count, ?_, ?_, ?_, Offer.nodup_menu _⟩
  · intro category known other variant place first placed offer
    rw [mem_menu_category_iff drafted count known other]
    constructor
    · rintro ⟨variant', place', first', placed', rfl⟩
      obtain rfl := first.unique first'
      obtain rfl : place' = place := by simpa [placed] using placed'.symm
      rfl
    · rintro rfl
      exact ⟨variant, place, first, placed, rfl⟩
  · intro category known other none offer offered named
    obtain ⟨variant, place, first, -⟩ :=
      (mem_menu_category_iff drafted count known other).mp ⟨offered, named⟩
    exact none variant first.mem first.1.1 first.1.2
  · intro offer offered
    obtain ⟨variant, -, made⟩ := (mem_menu_iff drafted count).mp offered
    obtain ⟨place, category, -, owner, rfl⟩ := offerAt?_eq_some.mp made
    have known := mem_of_owner owner
    by_cases keyword : category.key = "keyword"
    · rw [Category.eq_keyword known keyword]
      exact Or.inl ⟨place.key, rfl⟩
    · rw [Category.offer_of_not_keyword known keyword]
      exact Or.inr ⟨category, known, keyword, rfl⟩

end Standard

section Form

variable {value : String} {form : Form}

/-- The menu of a slot is the one behind the fragments before it, or none where that is empty. -/
theorem getD_menus_of_formIn (offers : standard.Offers expansion)
    (formed : standard.formIn expansion value = .ok form) {slot : Nat}
    (within : slot ≤ (ofValue value).length) :
    ∃ front, standard.draft ((ofValue value).take slot).texts
        (some ((ofValue value).take slot).separators) = .ok front ∧
      form.menus[slot]?.getD [] = standard.menu expansion.variants front := by
  obtain ⟨draft, drafted, -⟩ := formIn_eq_ok.mp formed
  have front := draft_take drafted slot
  refine ⟨draft.take slot, front, ?_⟩
  cases shown : form.menus[slot]? with
  | some menu =>
    obtain ⟨-, -, front', drafted', same⟩ :=
      (getElem?_menus_of_formIn offers formed).mp shown
    rw [front, Except.ok.injEq] at drafted'
    rw [Option.getD_some, same, drafted']
  | none =>
    by_contra nonempty
    have missing := (getElem?_menus_of_formIn offers formed).mpr
      ⟨within, Ne.symm nonempty, draft.take slot, front, rfl⟩
    simp [shown] at missing

theorem length_menus_le (offers : standard.Offers expansion)
    (formed : standard.formIn expansion value = .ok form) :
    form.menus.length ≤ (ofValue value).length + 1 := by
  rw [← List.getElem?_eq_none_iff, Option.eq_none_iff_forall_ne_some]
  intro menu shown
  have within := ((getElem?_menus_of_formIn offers formed).mp shown).1
  omega

/-- There is a slot behind the fragments if some variant goes on behind them. -/
theorem exists_next_slot_iff (offers : standard.Offers expansion)
    (formed : standard.formIn expansion value = .ok form) :
    (ofValue value).length < form.menus.length ↔
      ∃ variant ∈ expansion.variants, standard.Continues (ofValue value) variant := by
  have count := length_split_separators Separator.all value
  obtain ⟨draft, drafted, -⟩ := formIn_eq_ok.mp formed
  have whole := take_length value
  constructor
  · intro longer
    obtain ⟨menu, shown⟩ : ∃ menu, form.menus[(ofValue value).length]? = some menu :=
      ⟨_, List.getElem?_eq_getElem longer⟩
    obtain ⟨-, nonempty, front, drafted', rfl⟩ := (getElem?_menus_of_formIn offers formed).mp shown
    obtain ⟨offer, offered⟩ := List.exists_mem_of_ne_nil _ nonempty
    rw [whole] at drafted'
    obtain ⟨variant, first, -⟩ := (mem_menu_iff drafted' count).mp offered
    exact ⟨variant, first.mem, first.1.1⟩
  · rintro ⟨variant, member, goesOn⟩
    have nonempty := menu_ne_nil offers drafted count member goesOn.suits goesOn.longer
    have shown := (getElem?_menus_of_formIn offers formed).mpr
      ⟨Nat.le_refl _, nonempty, draft, by rw [whole, drafted], rfl⟩
    exact (List.getElem?_eq_some_iff.mp shown).1

/-- The menu of every slot holds exactly what the variants that go on behind the fragments before the
slot have there, and there is a slot behind the last fragment exactly if some variant goes on behind
all of them. -/
theorem menus_exact {grammar : String} (formed : standard.form grammar value = .ok form) :
    ∃ expansion, standard.expand grammar = .ok expansion ∧ expansion.isStructured = true ∧
      (∀ slot ≤ (ofValue value).length,
        IsMenu expansion.variants ((ofValue value).take slot) (form.menus[slot]?.getD [])) ∧
      ((∃ variant ∈ expansion.variants, standard.Continues (ofValue value) variant) →
        form.menus.length = (ofValue value).length + 1) ∧
      ((∀ variant ∈ expansion.variants, ¬ standard.Continues (ofValue value) variant) →
        form.menus.length = (ofValue value).length) := by
  obtain ⟨expansion, expanded, structured, formedIn⟩ := form_eq_ok.mp formed
  obtain ⟨items, tree, derivation⟩ := exists_derivation expanded structured
  have offers := offers_standard derivation
  have settled (variant : Variant) (member : variant ∈ expansion.variants) (place : Place)
      (inside : place ∈ variant.places) : place.IsSettled :=
    isSettled_of_mem derivation member inside
  have atLeast := length_le_menus formedIn
  have atMost := length_menus_le offers formedIn
  have next := exists_next_slot_iff offers formedIn
  refine ⟨expansion, expanded, structured, fun slot within => ?_, fun goesOn => ?_, fun none => ?_⟩
  · obtain ⟨front, drafted, shown⟩ := getD_menus_of_formIn offers formedIn within
    rw [shown]
    exact isMenu_menu settled drafted
      (length_separators_take (length_split_separators Separator.all value) slot)
  · have longer := next.mpr goesOn
    omega
  · have noLonger : ¬ (ofValue value).length < form.menus.length := by
      rw [next]
      rintro ⟨variant, member, goesOn⟩
      exact none variant member goesOn
    omega

/-- Behind `1px` there are a percentage and `none`, before it the first length and `auto`. -/
theorem menus_exact_lengths :
    ∃ form, standard.form "[ auto | <length> ] [ <percentage> | none ]?" "1px" = .ok form ∧
      form.menus.length = 2 ∧
      ∃ expansion, standard.expand "[ auto | <length> ] [ <percentage> | none ]?" = .ok expansion ∧
        ∀ slot ≤ (ofValue "1px").length,
          IsMenu expansion.variants ((ofValue "1px").take slot) (form.menus[slot]?.getD []) := by
  have found : (standard.form "[ auto | <length> ] [ <percentage> | none ]?" "1px").toOption.any
      (fun form => form.menus.length == 2) = true := by decide +kernel
  obtain ⟨form, formed, two⟩ := exists_ok_of_any found
  obtain ⟨expansion, expanded, -, exact, -⟩ := menus_exact formed
  exact ⟨form, formed, eq_of_beq two, expansion, expanded, exact⟩

end Form

end Context

end ValueGrammar
