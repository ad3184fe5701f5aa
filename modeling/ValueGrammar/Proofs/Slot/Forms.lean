import ValueGrammar.Proofs.Slot.Matching
import ValueGrammar.Slot.Edit

/-!
When forms and edits succeed, and what they then give. A context that has a literal for every place
of an expansion makes a form of every draft that fits a variant, and an edit succeeds if the
fragments up to the edited one are admitted: those behind it are given up when they do not fit.
-/
namespace ValueGrammar

namespace Context

variable {context : Context} {expansion : Expansion} {texts : List String}

/-- A literal is there for every place of every variant. -/
def Fills (context : Context) (expansion : Expansion) : Prop :=
  ∀ variant ∈ expansion.variants, ∀ place ∈ variant.places,
    ∃ literal, context.filler place = .ok literal

def FilledBy (context : Context) (places : List Place) (literals : List String) : Prop :=
  List.Forall₂ (fun place literal => context.filler place = .ok literal) places literals

theorem Fills.exists_fillers (fills : context.Fills expansion) {variant : Variant}
    (member : variant ∈ expansion.variants) (count : Nat) :
    ∃ literals, context.FilledBy (variant.places.drop count) literals := by
  have each := fun place inside =>
    fills variant member place (List.mem_of_mem_drop (i := count) inside)
  generalize variant.places.drop count = places at each
  induction places with
  | nil => exact ⟨[], .nil⟩
  | cons place places ih =>
    obtain ⟨literal, here⟩ := each place List.mem_cons_self
    obtain ⟨literals, later⟩ := ih fun other inside =>
      each other (List.mem_cons_of_mem place inside)
    exact ⟨literal :: literals, .cons here later⟩

/-- Admitted texts and the literals for the further places fill the variant. -/
theorem Admits.length_filled {variant : Variant} {literals : List String}
    (admits : context.Admits variant texts)
    (filled : context.FilledBy (variant.places.drop texts.length) literals) :
    (texts ++ literals).length = variant.length := by
  have total := filled.length_eq
  have bound := admits.length_le
  rw [List.length_drop] at total
  unfold Variant.length at bound ⊢
  rw [List.length_append]
  omega

/-! ### Forms -/

theorem formOf_eq_ok {draft : Draft} {form : Form} :
    context.formOf expansion draft = .ok form ↔
      ∃ found, context.match? expansion.variants draft = some found ∧
        ∃ literals, context.FilledBy (found.variant.places.drop draft.length) literals ∧
          form = ⟨found.variant, found.complete, draft.texts ++ literals,
            context.menus expansion.variants draft⟩ := by
  unfold formOf
  simp only [bind_eq_ok, matching_eq_ok, mapM_eq_ok]
  refine exists_congr fun found => and_congr_right fun _ => exists_congr fun literals =>
    and_congr_right fun _ => ?_
  constructor
  · intro made
    cases made
    rfl
  · intro same
    rw [same]
    rfl

/-- The form of a value: its fragments make a draft, the draft has a match, and the match says how
the value goes on. -/
theorem formIn_eq_ok {value : String} {form : Form} :
    context.formIn expansion value = .ok form ↔
      ∃ draft, context.draft (Fragments.ofValue value).texts
          (some (Fragments.ofValue value).separators) = .ok draft ∧
        context.formOf expansion draft = .ok form := by
  unfold formIn
  exact bind_eq_ok

theorem structured_eq_ok {result : Except Error Expansion} :
    (result >>= structured) = .ok expansion ↔
      result = .ok expansion ∧ expansion.isStructured = true := by
  rw [bind_eq_ok]
  unfold structured
  constructor
  · intro given
    obtain ⟨found, expanded, checked⟩ := given
    split at checked
    · next known =>
      cases checked
      exact ⟨expanded, known⟩
    · cases checked
  · intro given
    exact ⟨expansion, given.1, by rw [if_pos given.2]⟩

theorem form_eq_ok {grammar value : String} {form : Form} :
    context.form grammar value = .ok form ↔
      ∃ expansion, context.expand grammar = .ok expansion ∧ expansion.isStructured = true ∧
        context.formIn expansion value = .ok form := by
  have associated : context.form grammar value =
      ((context.expand grammar >>= structured) >>= fun expansion =>
        context.formIn expansion value) := by
    unfold Context.form
    rw [bind_assoc]
  rw [associated, bind_eq_ok]
  simp only [structured_eq_ok, and_assoc]

/-- A draft has a form if it fits a variant. -/
theorem exists_formOf (fills : context.Fills expansion) {draft : Draft} {variant : Variant}
    (member : variant ∈ expansion.variants) (fits : context.fits draft variant = true) :
    ∃ form, context.formOf expansion draft = .ok form := by
  obtain ⟨found, matched⟩ := exists_match? member fits
  obtain ⟨literals, filled⟩ := fills.exists_fillers (of_match? matched).1 draft.length
  exact ⟨_, formOf_eq_ok.mpr ⟨found, matched, literals, filled, rfl⟩⟩

/-- Where literals are there for all places, a draft has no form only if it has no match. -/
theorem formOf_eq_error (fills : context.Fills expansion) {draft : Draft} {e : Error} :
    context.formOf expansion draft = .error e ↔
      context.match? expansion.variants draft = none ∧ e = .noMatchingVariant draft.value := by
  cases matched : context.match? expansion.variants draft with
  | some found =>
    obtain ⟨literals, filled⟩ := fills.exists_fillers (of_match? matched).1 draft.length
    rw [formOf_eq_ok.mpr ⟨found, matched, literals, filled, rfl⟩]
    simp
  | none =>
    have refused : context.formOf expansion draft = .error (.noMatchingVariant draft.value) := by
      unfold formOf matching
      rw [matched]
      rfl
    rw [refused]
    simp [eq_comm]

/-! ### Completed values -/

theorem sameSeparators_of_none {draft : Draft} (free : draft.separators? = none)
    (variant : Variant) : variant.sameSeparators draft = true := by
  unfold Variant.sameSeparators
  rw [free]

/-- A completed value consists of the texts and the literals for the further places of a variant
that admits them. -/
theorem completed_eq_ok {value : String} (completed : context.completed expansion texts = .ok value) :
    ∃ variant ∈ expansion.variants, context.Admits variant texts ∧
      ∃ literals, context.FilledBy (variant.places.drop texts.length) literals ∧
        value = Separator.join (texts ++ literals) variant.separators := by
  obtain ⟨draft, drafted, formed⟩ := bind_eq_ok.mp completed
  obtain ⟨form, formed, written⟩ := bind_eq_ok.mp formed
  obtain ⟨found, matched, literals, filled, rfl⟩ := formOf_eq_ok.mp formed
  obtain ⟨member, fits, -⟩ := of_match? matched
  rw [length_of_draft drafted] at filled
  cases written
  exact ⟨found.variant, member, ((fits_iff drafted found.variant).mp fits).1, literals, filled,
    by rw [texts_of_draft drafted]; rfl⟩

/-- Texts that fill a variant are completed with the separators of the first such variant. -/
theorem completed_of_isFirst {variant : Variant}
    (first : IsFirst (fun v => v.length = texts.length ∧ context.Admits v texts) expansion.variants
      variant) :
    context.completed expansion texts = .ok (Separator.join texts variant.separators) := by
  obtain ⟨same, admits⟩ := first.1
  obtain ⟨draft, drafted⟩ := admits.exists_draft none
  have free := (draft_eq_ok.mp drafted).1
  have length := length_of_draft drafted
  have fills (v : Variant) : (v.length = draft.length ∧ context.fits draft v = true) ↔
      (v.length = texts.length ∧ context.Admits v texts) := by
    rw [fits_iff drafted, length, and_iff_left (sameSeparators_of_none free v)]
  have matched : context.match? expansion.variants draft = some ⟨variant, true⟩ :=
    match?_eq_some.mpr (Or.inl ⟨rfl, (isFirst_congr fun v _ => fills v).mpr first⟩)
  have none : variant.places.drop draft.length = [] := by
    rw [length, ← same]
    exact List.drop_length
  have formed : context.formOf expansion draft =
      .ok ⟨variant, true, draft.texts ++ [], context.menus expansion.variants draft⟩ := by
    refine formOf_eq_ok.mpr ⟨⟨variant, true⟩, matched, [], ?_, rfl⟩
    rw [none]
    exact .nil
  refine bind_eq_ok.mpr ⟨draft, drafted, bind_eq_ok.mpr ⟨_, formed, ?_⟩⟩
  rw [List.append_nil, texts_of_draft drafted]
  rfl

/-- Texts are completed if some variant admits them. -/
theorem completed_ok_iff (fills : context.Fills expansion) :
    (∃ value, context.completed expansion texts = .ok value) ↔
      ∃ variant ∈ expansion.variants, context.Admits variant texts := by
  constructor
  · intro given
    obtain ⟨value, completed⟩ := given
    obtain ⟨variant, member, admits, -⟩ := completed_eq_ok completed
    exact ⟨variant, member, admits⟩
  · intro given
    obtain ⟨variant, member, admits⟩ := given
    obtain ⟨draft, drafted⟩ := admits.exists_draft none
    have free := (draft_eq_ok.mp drafted).1
    have fits := (fits_iff drafted variant).mpr ⟨admits, sameSeparators_of_none free variant⟩
    obtain ⟨form, formed⟩ := exists_formOf fills member fits
    exact ⟨form.value, bind_eq_ok.mpr ⟨draft, drafted, bind_eq_ok.mpr ⟨form, formed, rfl⟩⟩⟩

theorem isMismatch_of_draft {separators? : Option (List Separator)} {e : Error}
    (failed : context.draft texts separators? = .error e) : e.isMismatch = true := by
  obtain ⟨text, -, rfl⟩ := draft_eq_error.mp failed
  rfl

/-- Where literals are there for all places, only the texts can be to blame. -/
theorem isMismatch_of_completed (fills : context.Fills expansion) {e : Error}
    (failed : context.completed expansion texts = .error e) : e.isMismatch = true := by
  unfold completed at failed
  rcases bind_eq_error.mp failed with undrafted | ⟨draft, -, later⟩
  · exact isMismatch_of_draft undrafted
  · rcases bind_eq_error.mp later with unformed | ⟨form, -, made⟩
    · obtain ⟨-, rfl⟩ := (formOf_eq_error fills).mp unformed
      rfl
    · cases made

/-! ### Edits -/

theorem checkSlot_eq_ok {fragments : List String} {slot : Nat} :
    checkSlot fragments slot = .ok () ↔ slot ≤ fragments.length := by
  unfold checkSlot
  split
  · next beyond => simp [Nat.not_le.mpr beyond]
  · next within => simp [Nat.not_lt.mp within]

/-- An edit checks its slot, takes the expansion of its grammar and goes on under it. -/
theorem edit_eq_bind {grammar : String} {fragments : List String} {slot : Nat} {text : String} :
    context.edit grammar fragments slot text =
      (checkSlot fragments slot >>= fun _ => (context.expand grammar >>= structured) >>=
        fun expansion => context.editIn expansion fragments slot text) := by
  unfold Context.edit
  rw [bind_assoc]

theorem edit_eq_ok {grammar : String} {fragments : List String} {slot : Nat} {text value : String} :
    context.edit grammar fragments slot text = .ok value ↔
      slot ≤ fragments.length ∧ ∃ expansion, context.expand grammar = .ok expansion ∧
        expansion.isStructured = true ∧
          context.editIn expansion fragments slot text = .ok value := by
  rw [edit_eq_bind, bind_eq_ok]
  constructor
  · intro given
    obtain ⟨⟨⟩, checked, rest⟩ := given
    obtain ⟨expansion, found, edited⟩ := bind_eq_ok.mp rest
    obtain ⟨expanded, known⟩ := structured_eq_ok.mp found
    exact ⟨checkSlot_eq_ok.mp checked, expansion, expanded, known, edited⟩
  · intro given
    obtain ⟨within, expansion, expanded, known, edited⟩ := given
    exact ⟨(), checkSlot_eq_ok.mpr within,
      bind_eq_ok.mpr ⟨expansion, structured_eq_ok.mpr ⟨expanded, known⟩, edited⟩⟩

/-- An edit under a grammar is one under its expansion. -/
theorem edit_eq_editIn {grammar : String} {fragments : List String} {slot : Nat}
    (expanded : context.expand grammar = .ok expansion) (known : expansion.isStructured = true)
    (within : slot ≤ fragments.length) (text : String) :
    context.edit grammar fragments slot text = context.editIn expansion fragments slot text := by
  rw [edit_eq_bind, checkSlot_eq_ok.mpr within, structured_eq_ok.mpr ⟨expanded, known⟩]
  rfl

/-- An edit gives the empty value, or completes the edited fragments, or completes those up to the
edited one because not all of them match. -/
theorem editIn_cases {fragments : List String} {slot : Nat} {text value : String}
    (edited : context.editIn expansion fragments slot text = .ok value) :
    (editedFragments fragments slot text = [] ∧ value = "") ∨
      context.completed expansion (editedFragments fragments slot text) = .ok value ∨
      ((∃ e, context.completed expansion (editedFragments fragments slot text) = .error e ∧
          e.isMismatch = true) ∧
        context.completed expansion ((editedFragments fragments slot text).take (slot + 1)) =
          .ok value) := by
  unfold editIn at edited
  dsimp only at edited
  split at edited
  · next empty =>
    cases edited
    exact Or.inl ⟨List.isEmpty_iff.mp empty, rfl⟩
  · right
    split at edited
    · next value' completed =>
      cases edited
      exact Or.inl completed
    · next e failed =>
      split at edited
      · next retried => exact Or.inr ⟨⟨e, failed, (Bool.and_eq_true_iff.mp retried).1⟩, edited⟩
      · cases edited

/-- An edit gives the empty value, or completes the edited fragments, all of them or those up to the
edited one. -/
theorem editIn_eq_ok {fragments : List String} {slot : Nat} {text value : String}
    (edited : context.editIn expansion fragments slot text = .ok value) :
    (editedFragments fragments slot text = [] ∧ value = "") ∨
      ∃ kept, (kept = editedFragments fragments slot text ∨
          kept = (editedFragments fragments slot text).take (slot + 1)) ∧
        context.completed expansion kept = .ok value := by
  rcases editIn_cases edited with empty | completed | ⟨-, completed⟩
  · exact Or.inl empty
  · exact Or.inr ⟨_, Or.inl rfl, completed⟩
  · exact Or.inr ⟨_, Or.inr rfl, completed⟩

/-- An edit succeeds if nothing is left of the value or some variant admits the fragments up to the
edited one. -/
theorem editIn_ok_iff (fills : context.Fills expansion) {fragments : List String} {slot : Nat}
    {text : String} :
    (∃ value, context.editIn expansion fragments slot text = .ok value) ↔
      editedFragments fragments slot text = [] ∨ ∃ variant ∈ expansion.variants,
        context.Admits variant ((editedFragments fragments slot text).take (slot + 1)) := by
  constructor
  · intro given
    obtain ⟨value, edited⟩ := given
    rcases editIn_cases edited with ⟨empty, -⟩ | completed | ⟨-, completed⟩
    · exact Or.inl empty
    · obtain ⟨variant, member, admits⟩ := (completed_ok_iff fills).mp ⟨value, completed⟩
      exact Or.inr ⟨variant, member, admits.take (slot + 1)⟩
    · exact Or.inr ((completed_ok_iff fills).mp ⟨value, completed⟩)
  · intro given
    unfold editIn
    dsimp only
    split
    · exact ⟨"", rfl⟩
    · next nonempty =>
      have admitted := given.resolve_left fun empty => nonempty (List.isEmpty_iff.mpr empty)
      obtain ⟨shortened, completedLater⟩ := (completed_ok_iff fills).mpr admitted
      split
      · next value completed => exact ⟨value, rfl⟩
      · next e failed =>
        have mismatch := isMismatch_of_completed fills failed
        by_cases longer : slot + 1 < (editedFragments fragments slot text).length
        · rw [if_pos (by simp [mismatch, longer])]
          exact ⟨shortened, completedLater⟩
        · rw [List.take_of_length_le (Nat.not_lt.mp longer), failed] at completedLater
          cases completedLater

end Context

end ValueGrammar
