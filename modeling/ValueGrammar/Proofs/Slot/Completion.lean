import ValueGrammar.Proofs.Slot.RoundTrip
import ValueGrammar.Proofs.Slot.Verdict

/-!
Completed values, read again. The form of a value completes it with literals for the further places
of the matched variant. The completed value has the same form, and then a complete one, if nothing had
to be added, or if all that was typed is closed and the literals are taken.
-/
namespace ValueGrammar

open Fragments

namespace Context

/-- A form whose value is read back: it has a complete form with the same fragments and value. -/
def Reproduces (context : Context) (grammar : String) (form : Form) : Prop :=
  ∃ again, context.form grammar form.value = .ok again ∧ again.complete = true ∧
    again.fragments = form.fragments ∧ again.value = form.value

/-! ### Complete forms -/

/-- A variant that a value fills, with the separators that stand in the value. -/
structure IsFilledBy (context : Context) (variant : Variant) (fragments : Fragments) : Prop where
  length : variant.length = fragments.length
  separators : variant.separators = fragments.separators
  admits : context.Admits variant fragments.texts

/-- How the form of a value comes about. -/
structure Forms (context : Context) (expansion : Expansion) (value : String) (form : Form)
    (literals : List String) : Prop where
  variant : form.variant ∈ expansion.variants
  admits : context.Admits form.variant (ofValue value).texts
  separators : form.separators.take ((ofValue value).length - 1) = (ofValue value).separators
  filled : context.FilledBy (form.variant.places.drop (ofValue value).length) literals
  fragments : form.fragments = (ofValue value).texts ++ literals
  complete : form.complete = true ↔ (ofValue value).length = form.variant.length

theorem exists_forms {context : Context} {expansion : Expansion} {value : String} {form : Form}
    (formed : context.formIn expansion value = .ok form) :
    ∃ literals, context.Forms expansion value form literals := by
  obtain ⟨draft, drafted, formedOf⟩ := formIn_eq_ok.mp formed
  obtain ⟨found, matched, literals, filled, rfl⟩ := formOf_eq_ok.mp formedOf
  obtain ⟨member, fits, complete⟩ := of_match? matched
  have suits := (fits_iff_suits drafted (length_split_separators Separator.all value)).mp fits
  have length : draft.length = (ofValue value).length := length_of_draft drafted
  rw [length] at filled complete
  refine ⟨literals, member, suits.admits, suits.separators, filled, ?_, complete⟩
  rw [texts_of_draft drafted]

variable {grammar : String} {expansion : Expansion} {items : List Lexeme} {tree : Tree}

/-- A complete form adds nothing. -/
theorem Forms.isFilledBy {value : String} {form : Form} {literals : List String}
    (derivation : Derivation standard grammar expansion items tree)
    (forms : standard.Forms expansion value form literals) (complete : form.complete = true) :
    literals = [] ∧ standard.IsFilledBy form.variant (ofValue value) := by
  have length := forms.complete.mp complete
  have none : literals = [] := by
    have total := forms.admits.length_filled forms.filled
    rw [List.length_append, ← length] at total
    exact List.length_eq_zero_iff.mp (Nat.add_eq_left.mp total)
  have whole : form.separators.length = (ofValue value).length - 1 := by
    rw [length]
    exact derivation.length_separators forms.variant
  have separators := forms.separators
  rw [← whole, List.take_length] at separators
  exact ⟨none, length.symm, separators, forms.admits⟩

/-- A variant that a value fills makes its form complete. -/
theorem exists_complete_form (derivation : Derivation standard grammar expansion items tree)
    {value : String} {variant : Variant} (member : variant ∈ expansion.variants)
    (filled : standard.IsFilledBy variant (ofValue value)) :
    ∃ form, standard.formIn expansion value = .ok form ∧ form.complete = true := by
  apply (exists_complete_formIn_iff (fills_standard derivation)).mpr
  refine ⟨variant, member, filled.length, filled.admits, ?_⟩
  rw [filled.separators]
  exact List.take_of_length_le (Nat.le_of_eq (length_split_separators Separator.all value))

/-! ### Reading a completed value -/

/-- A row of fragments is read back if some variant admits it with its separators. -/
theorem reproduces_of_split (expanded : standard.expand grammar = .ok expansion)
    (structured : expansion.isStructured = true)
    (derivation : Derivation standard grammar expansion items tree) {form : Form}
    (split : ofValue form.value = ⟨form.fragments, form.separators⟩) {variant : Variant}
    (member : variant ∈ expansion.variants)
    (filled : standard.IsFilledBy variant ⟨form.fragments, form.separators⟩) :
    standard.Reproduces grammar form := by
  rw [← split] at filled
  obtain ⟨again, formed, complete⟩ := exists_complete_form derivation member filled
  obtain ⟨literals, forms⟩ := exists_forms formed
  obtain ⟨rfl, again'⟩ := forms.isFilledBy derivation complete
  have fragments := forms.fragments
  have separators := again'.separators
  rw [split] at fragments separators
  rw [List.append_nil] at fragments
  refine ⟨again, form_eq_ok.mpr ⟨expansion, expanded, structured, formed⟩, complete, fragments, ?_⟩
  unfold Form.value Form.separators
  rw [fragments, separators]
  rfl

/-- The fragments of a form are one fragment of its value each, unless literals follow a fragment that
is open. -/
theorem Forms.split (derivation : Derivation standard grammar expansion items tree)
    {value : String} {form : Form} {literals : List String}
    (forms : standard.Forms expansion value form literals)
    (closed : literals = [] ∨ Closed value.toList) :
    ofValue form.value = ⟨form.fragments, form.separators⟩ := by
  have count : form.separators.length = form.fragments.length - 1 := by
    rw [forms.fragments, forms.admits.length_filled forms.filled]
    exact derivation.length_separators forms.variant
  have rowed : IsRow Separator.all form.fragments := by
    rw [forms.fragments]
    rcases closed with rfl | closed
    · rw [List.append_nil]
      exact split_isRow Separator.all value
    · apply isRow_of_whole
      intro fragment member
      rcases List.mem_append.mp member with typed | literal
      · exact whole_of_mem_ofValue closed typed
      · exact whole_of_filledBy derivation forms.variant forms.filled fragment literal
  exact split_join rowed count fun s _ => Separator.mem_all s

/-- A variant admits the literals that its fillable places are filled with. -/
theorem admits_filled (derivation : Derivation standard grammar expansion items tree)
    {variant : Variant} (member : variant ∈ expansion.variants) {texts literals : List String}
    (admits : standard.Admits variant texts)
    (filled : standard.FilledBy (variant.places.drop texts.length) literals)
    (fillable : ∀ place ∈ variant.places.drop texts.length, place.IsFillable) :
    standard.Admits variant (texts ++ literals) := by
  have taken := takes_of_filledBy filled
    (fun place inside => isSettled_of_mem derivation member (List.mem_of_mem_drop inside)) fillable
  apply admits.append
  rw [← taken.length_eq, List.take_length]
  exact taken

/-- A complete form is reproduced. -/
theorem Forms.reproduces_of_complete (expanded : standard.expand grammar = .ok expansion)
    (structured : expansion.isStructured = true)
    (derivation : Derivation standard grammar expansion items tree) {value : String} {form : Form}
    {literals : List String} (forms : standard.Forms expansion value form literals)
    (complete : form.complete = true) : standard.Reproduces grammar form := by
  obtain ⟨rfl, filled⟩ := forms.isFilledBy derivation complete
  have fragments := forms.fragments
  rw [List.append_nil] at fragments
  refine reproduces_of_split expanded structured derivation
    (forms.split derivation (Or.inl rfl)) forms.variant ?_
  rw [fragments]
  exact ⟨filled.length, rfl, filled.admits⟩

/-- Where literals had to be added, a form is reproduced only from a closed value, and some variant is
filled by its fragments. -/
theorem Forms.of_reproduces (expanded : standard.expand grammar = .ok expansion)
    (derivation : Derivation standard grammar expansion items tree) {value : String} {form : Form}
    {literals : List String} (forms : standard.Forms expansion value form literals)
    (incomplete : form.complete ≠ true) (reproduces : standard.Reproduces grammar form) :
    Closed value.toList ∧ ∃ variant ∈ expansion.variants,
      standard.IsFilledBy variant ⟨form.fragments, form.separators⟩ := by
  obtain ⟨again, formedAgain, completeAgain, fragments, -⟩ := reproduces
  obtain ⟨expansion', expanded', -, formedAgainIn⟩ := form_eq_ok.mp formedAgain
  rw [expanded] at expanded'
  cases expanded'
  obtain ⟨none, formsAgain⟩ := exists_forms formedAgainIn
  obtain ⟨rfl, filled⟩ := formsAgain.isFilledBy derivation completeAgain
  have texts := formsAgain.fragments
  rw [fragments, forms.fragments, List.append_nil] at texts
  have someLiterals : literals ≠ [] := by
    rintro rfl
    have length := forms.admits.length_filled forms.filled
    rw [List.append_nil] at length
    exact incomplete (forms.complete.mpr length)
  -- the literals stand behind all that was typed, so no typed fragment is the last one
  have closed : Closed value.toList := by
    rw [closed_iff_texts Separator.all value]
    intro fragment typed
    apply (split_isRow Separator.all form.value).closed
    change fragment ∈ (ofValue form.value).texts.dropLast
    rw [← texts, List.dropLast_append_of_ne_nil someLiterals]
    exact List.mem_append_left _ typed
  refine ⟨closed, again.variant, formsAgain.variant, ?_⟩
  rw [← forms.split derivation (Or.inr closed)]
  exact filled

/-- A form is reproduced from its value if and only if nothing had to be added to the value, or the
value is closed and some variant admits the fragments together with the literals added to them. The
matched variant does if the places that have been filled in are fillable. -/
theorem reproduces_iff {value : String} {form : Form}
    (formed : standard.form grammar value = .ok form) :
    ∃ expansion, standard.expand grammar = .ok expansion ∧
      (standard.Reproduces grammar form ↔ form.complete = true ∨
        (Closed value.toList ∧ ∃ variant ∈ expansion.variants,
          standard.IsFilledBy variant ⟨form.fragments, form.separators⟩)) ∧
      (Closed value.toList →
        (∀ place ∈ form.variant.places.drop (ofValue value).length, place.IsFillable) →
          standard.Reproduces grammar form) := by
  obtain ⟨expansion, expanded, structured, formedIn⟩ := form_eq_ok.mp formed
  obtain ⟨items, tree, derivation⟩ := exists_derivation expanded structured
  obtain ⟨literals, forms⟩ := exists_forms formedIn
  have ofClosed (closed : Closed value.toList) {variant : Variant}
      (member : variant ∈ expansion.variants)
      (filled : standard.IsFilledBy variant ⟨form.fragments, form.separators⟩) :
      standard.Reproduces grammar form :=
    reproduces_of_split expanded structured derivation
      (forms.split derivation (Or.inr closed)) member filled
  refine ⟨expansion, expanded, ⟨fun reproduces => ?_, fun given => ?_⟩, fun closed fillable => ?_⟩
  · by_cases complete : form.complete = true
    · exact Or.inl complete
    · exact Or.inr (forms.of_reproduces expanded derivation complete reproduces)
  · rcases given with complete | ⟨closed, variant, member, filled⟩
    · exact forms.reproduces_of_complete expanded structured derivation complete
    · exact ofClosed closed member filled
  · have admits : standard.Admits form.variant form.fragments := by
      rw [forms.fragments]
      exact admits_filled derivation forms.variant forms.admits forms.filled fillable
    have length : form.variant.length = form.fragments.length := by
      rw [forms.fragments, forms.admits.length_filled forms.filled]
    exact ofClosed closed forms.variant ⟨length, rfl, admits⟩

theorem reproduces_iff_fitted_length :
    ∃ form, standard.form "<length [2,∞]> auto" "" = .ok form ∧
      ∃ expansion, standard.expand "<length [2,∞]> auto" = .ok expansion ∧
        (standard.Reproduces "<length [2,∞]> auto" form ↔ form.complete = true ∨
          (Closed "".toList ∧ ∃ variant ∈ expansion.variants,
            standard.IsFilledBy variant ⟨form.fragments, form.separators⟩)) ∧
        (Closed "".toList →
          (∀ place ∈ form.variant.places.drop (ofValue "").length, place.IsFillable) →
            standard.Reproduces "<length [2,∞]> auto" form) := by
  have found : (standard.form "<length [2,∞]> auto" "").toOption.any
      (fun form => form.value == "2px auto") = true := by decide +kernel
  obtain ⟨form, formed, -⟩ := exists_ok_of_any found
  exact ⟨form, formed, reproduces_iff formed⟩

/-- The default of an integer is pulled to a bound that is none, and is then refused. -/
theorem completed_value_refused :
    ¬ ∀ (grammar value : String) (expansion : Expansion) (form : Form),
      standard.expand grammar = .ok expansion → expansion.isStructured = true →
        (∀ variant ∈ expansion.variants, ∀ place ∈ variant.places, ∀ range ∈ place.range?,
          range.min ≤ range.max) →
          standard.form grammar value = .ok form → standard.Reproduces grammar form := by
  intro claimed
  have found : (standard.form "<integer [0.5,3]>" "").toOption.any
      (fun form => (standard.form "<integer [0.5,3]>" form.value).toOption.isNone) = true := by
    decide +kernel
  obtain ⟨form, formed, refused⟩ := exists_ok_of_any found
  have expands : (standard.expand "<integer [0.5,3]>").toOption.any (fun expansion =>
      expansion.isStructured && expansion.variants.all fun variant => variant.places.all fun place =>
        place.range?.all fun range => decide (range.min ≤ range.max)) = true := by decide +kernel
  obtain ⟨expansion, expanded, checked⟩ := exists_ok_of_any expands
  obtain ⟨structured, ordered⟩ := Bool.and_eq_true_iff.mp checked
  obtain ⟨again, formedAgain, -⟩ := claimed _ _ expansion form expanded structured
    (by simpa [List.all_eq_true, Option.all_eq_true] using ordered) formed
  rw [formedAgain] at refused
  cases refused

end Context

end ValueGrammar
