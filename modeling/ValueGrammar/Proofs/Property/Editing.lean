import Mathlib.Logic.Relation
import ValueGrammar.Property.Editor
import ValueGrammar.Proofs.Registry.Offerable
import ValueGrammar.Proofs.Session
import ValueGrammar.Proofs.Slot.Completion
import ValueGrammar.Proofs.Slot.Picking

/-!
Editing a property through its menus. A step looks at the menus of the value, and puts an offer of
one of them into its slot or empties the slot. All along, the value is closed and has menus, so that
there is always a next step, and each step leaves a value that is empty or complete. This rests on
the grammars of the properties: the tokens of all of them can be offered.
-/
namespace ValueGrammar

open Fragments

/-- What a form allows in a slot: an offer of its menu, or nothing. -/
def Form.Allows (form : Form) (slot : Nat) (text : String) : Prop :=
  ∃ menu, form.menus[slot]? = some menu ∧ (text = "" ∨ ∃ offer ∈ menu, text = offer.value)

namespace Context

/-- A value that has a form and all of whose quotes and parentheses are closed. -/
structure Editable (context : Context) (grammar value : String) : Prop where
  closed : Closed value.toList
  formed : ∃ form, context.form grammar value = .ok form

def Fulfils (context : Context) (grammar value : String) : Prop :=
  value = "" ∨ ∃ form, context.form grammar value = .ok form ∧ form.complete = true

variable {grammar value text result : String} {expansion : Expansion} {items : List Lexeme}
  {tree : Tree} {form : Form} {slot : Nat}

/-! ### One step -/

/-- The empty value has a form where there is a variant at all. -/
theorem editable_empty (expanded : standard.expand grammar = .ok expansion)
    (structured : expansion.isStructured = true) {variant : Variant}
    (member : variant ∈ expansion.variants) : standard.Editable grammar "" := by
  obtain ⟨items, tree, derivation⟩ := exists_derivation expanded structured
  have drafted : standard.draft [] (some []) = .ok ⟨[], some []⟩ := rfl
  have fits := (fits_iff drafted variant).mpr ⟨⟨[], List.nil_prefix, .nil⟩, rfl⟩
  obtain ⟨form, formed⟩ := exists_formOf (fills_standard derivation) member fits
  exact ⟨rfl, form, form_eq_ok.mpr
    ⟨expansion, expanded, structured, formIn_eq_ok.mpr ⟨_, drafted, formed⟩⟩⟩

/-- Whole fragments completed with literals for fillable places are a complete value. -/
theorem editable_filled (expanded : standard.expand grammar = .ok expansion)
    (structured : expansion.isStructured = true) {variant : Variant}
    (member : variant ∈ expansion.variants) (fillable : ∀ place ∈ variant.places, place.IsFillable)
    {texts literals : List String} (admits : standard.Admits variant texts)
    (filled : standard.FilledBy (variant.places.drop texts.length) literals)
    (whole : ∀ text ∈ texts, Whole text) :
    standard.Editable grammar (Separator.join (texts ++ literals) variant.separators) ∧
      standard.Fulfils grammar (Separator.join (texts ++ literals) variant.separators) := by
  obtain ⟨items, tree, derivation⟩ := exists_derivation expanded structured
  have split := split_filled derivation member admits filled whole
  have admitsAll := admits_filled derivation member admits filled
    fun place inside => fillable place (List.mem_of_mem_drop inside)
  generalize joined : Separator.join (texts ++ literals) variant.separators = value at split ⊢
  have filledBy : standard.IsFilledBy variant (ofValue value) := by
    rw [split]
    exact ⟨(admits.length_filled filled).symm, rfl, admitsAll⟩
  obtain ⟨form, formedIn, complete⟩ := exists_complete_form derivation member filledBy
  have formed := form_eq_ok.mpr ⟨expansion, expanded, structured, formedIn⟩
  refine ⟨⟨?_, form, formed⟩, Or.inr ⟨form, formed, complete⟩⟩
  apply (closed_iff_texts Separator.all value).mpr
  intro fragment member'
  change fragment ∈ (ofValue value).texts at member'
  rw [split] at member'
  rcases List.mem_append.mp member' with typed | literal
  · exact (whole fragment typed).closed
  · exact (whole_of_filledBy derivation member filled fragment literal).closed

/-- What a form allows is nothing or whole, and can be picked where all places are offerable. -/
theorem canPick_of_allows (expanded : standard.expand grammar = .ok expansion)
    (structured : expansion.isStructured = true)
    (offerable : ∀ variant ∈ expansion.variants, ∀ place ∈ variant.places, place.IsOfferable)
    (formed : standard.formIn expansion value = .ok form) (allowed : form.Allows slot text) :
    (text = "" ∨ Whole text) ∧ standard.CanPick grammar value slot text := by
  obtain ⟨items, tree, derivation⟩ := exists_derivation expanded structured
  obtain ⟨menu, shown, choice⟩ := allowed
  rcases choice with rfl | ⟨offer, offered, rfl⟩
  · refine ⟨Or.inl rfl, ?_⟩
    obtain ⟨member, suits⟩ := (completes_of_formIn formed).suits
    obtain ⟨within, -⟩ := (getElem?_menus_of_formIn (offers_standard derivation) formed).mp shown
    rw [canPick_iff_edited expanded structured within, editedFragments_ofValue_empty]
    exact Or.inr ⟨form.variant, member, (suits.admits.take slot).take (slot + 1)⟩
  · obtain ⟨within, whole, variant, member, -, place, placed, -, taken⟩ :=
      exists_offered_place derivation formed shown offered
    have free := offerable variant member place (List.mem_of_getElem? placed)
    exact ⟨Or.inr whole,
      (canPick_iff expanded structured whole within).mpr ⟨variant, member, taken free⟩⟩

theorem whole_of_mem_editedFragments {value text : String} (closed : Closed value.toList)
    (whole : text = "" ∨ Whole text) {slot : Nat} :
    ∀ fragment ∈ editedFragments (ofValue value).texts slot text, Whole fragment := by
  intro fragment member
  rcases whole with rfl | whole
  · rw [editedFragments_ofValue_empty] at member
    exact whole_of_mem_ofValue closed (List.mem_of_mem_take member)
  · rw [editedFragments_ofValue whole.ne_empty whole.trim] at member
    rcases List.mem_append.mp member with front | behind
    · exact whole_of_mem_ofValue closed (List.mem_of_mem_take front)
    · rcases List.mem_cons.mp behind with rfl | later
      · exact whole
      · exact whole_of_mem_ofValue closed (List.mem_of_mem_drop later)

/-- An allowed pick succeeds, and leaves a value that can be edited further and is empty or complete,
if the tokens of the grammar can all be offered. -/
theorem edit_of_allows (offers : offersAll grammar = true)
    (editable : standard.Editable grammar value) (formed : standard.form grammar value = .ok form)
    (allowed : form.Allows slot text) :
    ∃ result, standard.edit grammar (ofValue value).texts slot text = .ok result ∧
      standard.Editable grammar result ∧ standard.Fulfils grammar result := by
  obtain ⟨expansion, expanded, structured, formedIn⟩ := form_eq_ok.mp formed
  obtain ⟨items, tree, derivation⟩ := exists_derivation expanded structured
  have offerable : ∀ variant ∈ expansion.variants, ∀ place ∈ variant.places, place.IsOfferable :=
    fun variant member place inside => isOfferable_of_offersAll offers derivation member inside
  obtain ⟨whole, result, edited⟩ :=
    canPick_of_allows expanded structured offerable formedIn allowed
  refine ⟨result, edited, ?_⟩
  obtain ⟨-, expansion', expanded', -, editedIn⟩ := edit_eq_ok.mp edited
  rw [expanded] at expanded'
  cases expanded'
  rcases editIn_eq_ok editedIn with ⟨-, rfl⟩ | ⟨kept, front, completed⟩
  · obtain ⟨literals, forms⟩ := exists_forms formedIn
    exact ⟨editable_empty expanded structured forms.variant, Or.inl rfl⟩
  · obtain ⟨variant, member, admits, literals, filled, rfl⟩ := completed_eq_ok completed
    refine editable_filled expanded structured member
      (fun place inside => (offerable variant member place inside).isFillable) admits filled ?_
    exact fun fragment inside =>
      whole_of_mem_editedFragments editable.closed whole fragment (subset_of_kept front inside)

end Context

/-! ### The grammars of the properties -/

namespace Property

-- the two longest grammars stand in six rows of the table; they are evaluated once each

theorem offersAll_sizeGrammar : offersAll sizeGrammar = true := by
  decide +kernel

theorem offersAll_maxSizeGrammar : offersAll maxSizeGrammar = true := by
  decide +kernel

theorem offersAll_all : all.all (fun property => offersAll property.grammar) = true := by
  simp only [all, List.all_cons, offersAll_sizeGrammar, offersAll_maxSizeGrammar, Bool.true_and]
  decide +kernel

end Property

/-! ### Editing -/

namespace Editor

/-- One step of editing: the form of the value is made, and a text that it allows is put into a slot. -/
inductive Step (editor : Editor) : Session × String → Session × String → Prop
  | pick {session shown edited : Session} {value text result : String} {form : Form} {slot : Nat} :
      editor.form session value = (.ok form, shown) → form.Allows slot text →
        editor.apply shown value slot text = (.ok result, edited) →
          Step editor (session, value) (edited, result)

variable {editor : Editor} {session : Session} {value text result : String} {form : Form} {slot : Nat}

theorem lift_eq_ok {α : Type} {outcome : Except Error α × Session} {x : α} {later : Session} :
    lift outcome = (.ok x, later) ↔ outcome.1 = .ok x ∧ outcome.2 = later := by
  obtain ⟨answer, session⟩ := outcome
  unfold lift
  cases answer with
  | error e => simp [Except.mapError]
  | ok y => simp [Except.mapError]

/-- An editor makes the forms of the context that its session serves. -/
theorem form_eq_ok (serves : session.Serves Context.standard) {shown : Session} :
    editor.form session value = (.ok form, shown) ↔
      Context.standard.form editor.property.grammar value = .ok form ∧
        (session.form editor.property.grammar value).2 = shown := by
  unfold Editor.form
  rw [lift_eq_ok, (serves.form editor.property.grammar value).1]

/-- An editor makes the edits of the context that its session serves. -/
theorem apply_eq_ok (serves : session.Serves Context.standard) {edited : Session} :
    editor.apply session value slot text = (.ok result, edited) ↔
      Context.standard.edit editor.property.grammar (ofValue value).texts slot text = .ok result ∧
        (session.edit editor.property.grammar (ofValue value).texts slot text).2 = edited := by
  unfold Editor.apply
  rw [lift_eq_ok, (serves.edit editor.property.grammar (ofValue value).texts slot text).1]

/-- What holds all along a run: the session answers as the standard context does, and the value can be
edited. -/
structure Ready (editor : Editor) (state : Session × String) : Prop where
  serves : state.1.Serves Context.standard
  editable : Context.standard.Editable editor.property.grammar state.2

theorem Ready.step (offers : offersAll editor.property.grammar = true) {state later : Session × String}
    (ready : editor.Ready state) (step : editor.Step state later) : editor.Ready later := by
  cases step with
  | @pick session shown edited value text result form slot formed allowed applied =>
    have serves : session.Serves Context.standard := ready.serves
    obtain ⟨made, rfl⟩ := (form_eq_ok serves).mp formed
    have later := (serves.form editor.property.grammar value).2
    obtain ⟨changed, rfl⟩ := (apply_eq_ok later).mp applied
    obtain ⟨result', changed', editable, -⟩ :=
      Context.edit_of_allows offers ready.editable made allowed
    cases changed.symm.trans changed'
    exact ⟨(later.edit editor.property.grammar (ofValue value).texts slot text).2, editable⟩

theorem Ready.run (offers : offersAll editor.property.grammar = true) {state later : Session × String}
    (ready : editor.Ready state) (run : Relation.ReflTransGen editor.Step state later) :
    editor.Ready later := by
  induction run with
  | refl => exact ready
  | tail _ step ih => exact ih.step offers step

/-- A value from which every next step can be made: it has a form, and each pick that the form allows
succeeds and leaves a value that is empty or has a complete form. -/
def GoesOn (editor : Editor) (session : Session) (value : String) : Prop :=
  ∃ form shown, editor.form session value = (.ok form, shown) ∧
    ∀ slot text, form.Allows slot text → ∃ result edited,
      editor.apply shown value slot text = (.ok result, edited) ∧
        (result = "" ∨ ∃ next, (editor.form edited result).1 = .ok next ∧ next.complete = true)

theorem Ready.goesOn (offers : offersAll editor.property.grammar = true)
    (ready : editor.Ready (session, value)) : editor.GoesOn session value := by
  obtain ⟨form, formed⟩ := ready.editable.formed
  have shown := (ready.serves.form editor.property.grammar value).2
  refine ⟨form, _, (form_eq_ok ready.serves).mpr ⟨formed, rfl⟩, fun slot text allowed => ?_⟩
  obtain ⟨result, edited, -, fulfils⟩ := Context.edit_of_allows offers ready.editable formed allowed
  refine ⟨result, _, (apply_eq_ok shown).mpr ⟨edited, rfl⟩, ?_⟩
  rcases fulfils with empty | ⟨next, formedNext, complete⟩
  · exact Or.inl empty
  · have later := (shown.edit editor.property.grammar (ofValue value).texts slot text).2
    exact Or.inr ⟨next,
      congrArg Prod.fst ((form_eq_ok later).mpr ⟨formedNext, rfl⟩), complete⟩

/-- Editing a property through its menus never comes to a dead end. Whatever steps have been made from
a closed value that has a form, every next step can be made from the value that has been reached. -/
theorem editing_goes_on (listed : editor.property ∈ Property.all)
    (serves : session.Serves Context.standard) {shown : Session}
    (accepted : editor.form session value = (.ok form, shown)) (closed : Closed value.toList)
    {later : Session} {reached : String}
    (run : Relation.ReflTransGen editor.Step (session, value) (later, reached)) :
    editor.GoesOn later reached := by
  have offers := List.all_eq_true.mp Property.offersAll_all editor.property listed
  have ready : editor.Ready (session, value) :=
    ⟨serves, closed, form, ((form_eq_ok serves).mp accepted).1⟩
  exact (ready.run offers run).goesOn offers

theorem editing_goes_on_stacking_order :
    ∃ (editor : Editor) (form : Form) (shown later : Session), editor.property ∈ Property.all ∧
      editor.form (Session.start Context.standard) "auto" = (.ok form, shown) ∧
      Relation.ReflTransGen editor.Step (Session.start Context.standard, "auto") (later, "0") ∧
      editor.GoesOn later "0" := by
  have found : (Context.standard.form "auto | <integer>" "auto").toOption.any (fun form =>
      form.menus[0]?.any fun menu => menu.any fun offer => offer.value == "0") = true := by
    decide +kernel
  have replaced : (Context.standard.edit "auto | <integer>" (ofValue "auto").texts 0 "0").toOption.any
      (fun result => result == "0") = true := by decide +kernel
  obtain ⟨form, menu, offer, formed, shown, offered, zero⟩ := exists_offer_of_any _ found
  obtain ⟨result, edited, same⟩ := exists_ok_of_any replaced
  rw [beq_iff_eq.mp same] at edited
  let editor : Editor := ⟨"z-index", "Stacking order", "auto | <integer>"⟩
  have listed : editor.property ∈ Property.all := List.mem_of_getElem? (i := 16) rfl
  have serves := Session.serves_start Context.standard
  have accepted : editor.form (Session.start Context.standard) "auto" = (.ok form, _) :=
    (form_eq_ok serves).mpr ⟨formed, rfl⟩
  have step := Step.pick accepted ⟨menu, shown, Or.inr ⟨offer, offered, (beq_iff_eq.mp zero).symm⟩⟩
    ((apply_eq_ok (serves.form _ _).2).mpr ⟨edited, rfl⟩)
  exact ⟨editor, form, _, _, listed, accepted, .single step,
    editing_goes_on listed serves accepted (by decide) (.single step)⟩

end Editor

end ValueGrammar
