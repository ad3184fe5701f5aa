import ValueGrammar.Proofs.Slot.Defaults

/-!
The verdict on a value. A value is refused for its first fragment that may stand for no token, or
else because it is the beginning of no variant, separators included. Every other value has a form:
it is made from the first variant that the value fills, or from the first longer one that it is the
beginning of if it fills none.
-/
namespace ValueGrammar

open Fragments

namespace Context

variable {context : Context} {expansion : Expansion} {value : String}

/-! ### Variants that suit fragments -/

/-- A variant that fragments are the beginning of: its first places take them one by one, and their
separators are its first ones. -/
structure Suits (context : Context) (variant : Variant) (fragments : Fragments) : Prop where
  admits : context.Admits variant fragments.texts
  separators : variant.separators.take (fragments.length - 1) = fragments.separators

theorem Suits.length_le {variant : Variant} {fragments : Fragments}
    (suits : context.Suits variant fragments) : fragments.length ≤ variant.length :=
  suits.admits.length_le

/-- A variant that suits fragments suits the first ones among them. -/
theorem Suits.take {variant : Variant} {fragments : Fragments}
    (suits : context.Suits variant fragments) (count : Nat) :
    context.Suits variant (fragments.take count) := by
  refine ⟨suits.admits.take count, ?_⟩
  have shorter : min count fragments.length - 1 = min (count - 1) (fragments.length - 1) := by omega
  rw [length_take, shorter, ← List.take_take, suits.separators]
  rfl

/-- The draft of fragments fits the variants that suit them. -/
theorem fits_iff_suits {fragments : Fragments} {draft : Draft}
    (drafted : context.draft fragments.texts (some fragments.separators) = .ok draft)
    (count : fragments.separators.length = fragments.length - 1) {variant : Variant} :
    context.fits draft variant = true ↔ context.Suits variant fragments := by
  have same : variant.sameSeparators draft = true ↔
      variant.separators.take (fragments.length - 1) = fragments.separators := by
    have whole := List.take_of_length_le (Nat.le_of_eq count)
    unfold Variant.sameSeparators
    rw [(draft_eq_ok.mp drafted).1, Draft.boundaries, length_of_draft drafted]
    change (_ == fragments.separators.take (fragments.length - 1)) = true ↔ _
    rw [whole]
    exact beq_iff_eq
  rw [fits_iff drafted, same]
  exact ⟨fun both => ⟨both.1, both.2⟩, fun suits => ⟨suits.admits, suits.separators⟩⟩

/-! ### Forms -/

/-- A form that completes fragments. It is made from the first variant that they fill, or else from
the first longer one that suits them. -/
structure Completes (context : Context) (variants : List Variant) (fragments : Fragments)
    (form : Form) : Prop where
  chosen :
    (form.complete = true ∧ IsFirst
      (fun v => v.length = fragments.length ∧ context.Suits v fragments) variants form.variant) ∨
    (form.complete = false ∧
      (∀ v ∈ variants, v.length = fragments.length → ¬ context.Suits v fragments) ∧ IsFirst
        (fun v => fragments.length < v.length ∧ context.Suits v fragments) variants form.variant)
  typed : fragments.texts <+: form.fragments
  length : form.fragments.length = form.variant.length
  separators : form.separators = form.variant.separators
  value : form.value = Separator.join form.fragments form.separators

theorem Completes.suits {variants : List Variant} {fragments : Fragments} {form : Form}
    (completes : context.Completes variants fragments form) :
    form.variant ∈ variants ∧ context.Suits form.variant fragments := by
  rcases completes.chosen with ⟨-, first⟩ | ⟨-, -, first⟩
  · exact ⟨first.mem, first.1.2⟩
  · exact ⟨first.mem, first.1.2⟩

/-- The form of a value completes its fragments. -/
theorem completes_of_formIn {form : Form} (formed : context.formIn expansion value = .ok form) :
    context.Completes expansion.variants (ofValue value) form := by
  obtain ⟨draft, drafted, formedOf⟩ := formIn_eq_ok.mp formed
  obtain ⟨found, matched, literals, filled, rfl⟩ := formOf_eq_ok.mp formedOf
  have count := length_split_separators Separator.all value
  have length : draft.length = (ofValue value).length := length_of_draft drafted
  have chosen := match?_eq_some.mp matched
  simp only [ne_eq, length, fits_iff_suits drafted count] at chosen
  have admits := ((fits_iff drafted found.variant).mp (of_match? matched).2.1).1
  rw [texts_of_draft drafted]
  rw [length] at filled
  exact ⟨chosen, List.prefix_append _ _, admits.length_filled filled, rfl, rfl⟩

/-- A value is refused for its first fragment that may stand for no token, or because no variant
suits it. -/
theorem formIn_eq_error (fills : context.Fills expansion) {e : Error} :
    context.formIn expansion value = .error e ↔
      (∃ text, IsFirst (fun text => ¬ context.Knows text) (ofValue value).texts text ∧
        e = .unclassifiable (Text.trim text)) ∨
      (∀ text ∈ (ofValue value).texts, context.Knows text) ∧
        (∀ variant ∈ expansion.variants, ¬ context.Suits variant (ofValue value)) ∧
          e = .noMatchingVariant (ofValue value).value := by
  unfold formIn
  rw [bind_eq_error, draft_eq_error]
  refine or_congr_right ?_
  simp only [formOf_eq_error fills, match?_eq_none]
  have count := length_split_separators Separator.all value
  constructor
  · intro given
    obtain ⟨draft, drafted, none, rfl⟩ := given
    refine ⟨exists_draft_iff.mp ⟨draft, drafted⟩, fun variant member suits => ?_, ?_⟩
    · exact none variant member ((fits_iff_suits drafted count).mpr suits)
    · rw [Draft.value, texts_of_draft drafted, (draft_eq_ok.mp drafted).1]
      rfl
  · intro given
    obtain ⟨known, none, rfl⟩ := given
    have readable : ∃ draft,
        context.draft (ofValue value).texts (some (ofValue value).separators) = .ok draft :=
      exists_draft_iff.mpr known
    obtain ⟨draft, drafted⟩ := readable
    refine ⟨draft, drafted, fun variant member fits => ?_, ?_⟩
    · exact none variant member ((fits_iff_suits drafted count).mp fits)
    · rw [Draft.value, texts_of_draft drafted, (draft_eq_ok.mp drafted).1]
      rfl

/-- A value has a form if some variant suits it. -/
theorem exists_formIn_iff (fills : context.Fills expansion) :
    (∃ form, context.formIn expansion value = .ok form) ↔
      ∃ variant ∈ expansion.variants, context.Suits variant (ofValue value) := by
  constructor
  · intro given
    obtain ⟨form, formed⟩ := given
    exact ⟨form.variant, (completes_of_formIn formed).suits⟩
  · intro given
    obtain ⟨variant, member, suits⟩ := given
    cases formed : context.formIn expansion value with
    | ok form => exact ⟨form, rfl⟩
    | error e =>
      rcases (formIn_eq_error fills).mp formed with ⟨text, unknown, -⟩ | ⟨-, none, -⟩
      · obtain ⟨place, -, stands, -⟩ := suits.admits.takes text unknown.mem
        exact absurd ⟨place.key, stands⟩ unknown.1
      · exact absurd suits (none variant member)

/-- A value has a complete form if it fills some variant that suits it. -/
theorem exists_complete_formIn_iff (fills : context.Fills expansion) :
    (∃ form, context.formIn expansion value = .ok form ∧ form.complete = true) ↔
      ∃ variant ∈ expansion.variants, variant.length = (ofValue value).length ∧
        context.Suits variant (ofValue value) := by
  constructor
  · intro given
    obtain ⟨form, formed, complete⟩ := given
    rcases (completes_of_formIn formed).chosen with ⟨-, first⟩ | ⟨incomplete, -⟩
    · exact ⟨form.variant, first.mem, first.1⟩
    · rw [complete] at incomplete
      cases incomplete
  · intro given
    obtain ⟨variant, member, same, suits⟩ := given
    obtain ⟨form, formed⟩ := (exists_formIn_iff fills).mpr ⟨variant, member, suits⟩
    rcases (completes_of_formIn formed).chosen with ⟨complete, -⟩ | ⟨-, none, -⟩
    · exact ⟨form, formed, complete⟩
    · exact absurd suits (none variant member same)

/-- Under a structured expansion a grammar gives the forms of the expansion. -/
theorem form_eq_formIn {grammar : String} (expanded : context.expand grammar = .ok expansion)
    (structured : expansion.isStructured = true) :
    context.form grammar value = context.formIn expansion value := by
  have found := structured_eq_ok.mpr ⟨expanded, structured⟩
  unfold Context.form
  rw [← bind_assoc, found]
  rfl

/-! ### Main result -/

/-- A value is refused for its first fragment that may stand for no token. If there is none, it is
refused with all its text if no variant suits it, and otherwise it has a form that completes it. No
default is ever missing. -/
theorem form_verdict {grammar : String} (expanded : standard.expand grammar = .ok expansion)
    (structured : expansion.isStructured = true) :
    (∀ text, standard.form grammar value = .error (.unclassifiable text) ↔
      IsFirst (fun text => ¬ standard.Knows text) (ofValue value).texts text) ∧
    ((∀ text ∈ (ofValue value).texts, standard.Knows text) →
      (standard.form grammar value = .error (.noMatchingVariant (ofValue value).value) ↔
        ∀ variant ∈ expansion.variants, ¬ standard.Suits variant (ofValue value)) ∧
      ((∃ variant ∈ expansion.variants, standard.Suits variant (ofValue value)) →
        ∃ form, standard.form grammar value = .ok form ∧
          standard.Completes expansion.variants (ofValue value) form)) ∧
    ∀ key, standard.form grammar value ≠ .error (.missingDefault key) := by
  obtain ⟨items, tree, derivation⟩ := exists_derivation expanded structured
  have fills := fills_standard derivation
  rw [form_eq_formIn expanded structured]
  refine ⟨fun text => ?_, fun known => ⟨?_, fun suited => ?_⟩, fun key missing => ?_⟩
  · rw [formIn_eq_error fills]
    constructor
    · intro given
      rcases given with ⟨first, unknown, same⟩ | ⟨-, -, other⟩
      · rw [trim_of_mem_ofValue unknown.mem] at same
        cases same
        exact unknown
      · cases other
    · intro unknown
      refine Or.inl ⟨text, unknown, ?_⟩
      rw [trim_of_mem_ofValue unknown.mem]
  · rw [formIn_eq_error fills]
    constructor
    · intro given
      rcases given with ⟨text, -, other⟩ | ⟨-, none, -⟩
      · cases other
      · exact none
    · intro none
      exact Or.inr ⟨known, none, rfl⟩
  · obtain ⟨form, formed⟩ := (exists_formIn_iff fills).mpr suited
    exact ⟨form, formed, completes_of_formIn formed⟩
  · rcases (formIn_eq_error fills).mp missing with ⟨text, -, other⟩ | ⟨-, -, other⟩
    · cases other
    · cases other

theorem form_verdict_ratio :
    ∃ expansion form, standard.expand "auto || <ratio>" = .ok expansion ∧
      expansion.isStructured = true ∧
      (∀ text ∈ (ofValue "16 / 9").texts, standard.Knows text) ∧
      (∃ variant ∈ expansion.variants, standard.Suits variant (ofValue "16 / 9")) ∧
      standard.form "auto || <ratio>" "16 / 9" = .ok form ∧
      standard.Completes expansion.variants (ofValue "16 / 9") form := by
  have found : (standard.expand "auto || <ratio>").toOption.any (fun expansion =>
      expansion.isStructured && (standard.draft (ofValue "16 / 9").texts
        (some (ofValue "16 / 9").separators)).toOption.any fun draft =>
          expansion.variants.any (standard.fits draft)) = true := by decide +kernel
  obtain ⟨expansion, expanded, checked⟩ := exists_ok_of_any found
  obtain ⟨structured, drafts⟩ := Bool.and_eq_true_iff.mp checked
  obtain ⟨draft, drafted, fitted⟩ := exists_ok_of_any drafts
  obtain ⟨variant, member, fits⟩ := List.any_eq_true.mp fitted
  have known := exists_draft_iff.mp ⟨draft, drafted⟩
  have suits := (fits_iff_suits drafted (length_split_separators _ _)).mp fits
  obtain ⟨form, formed, completes⟩ :=
    ((form_verdict expanded structured).2.1 known).2 ⟨variant, member, suits⟩
  exact ⟨expansion, form, expanded, structured, known, ⟨variant, member, suits⟩, formed, completes⟩

end Context

end ValueGrammar
