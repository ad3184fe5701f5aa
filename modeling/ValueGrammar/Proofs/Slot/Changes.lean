import ValueGrammar.Proofs.Slot.Forms

/-!
What an edit changes. The fragments before the edited slot stay, and those behind it are given up
only if no variant admits all fragments, and then all together. What is kept is written with the
separators of a variant that admits it, and literals follow only where it fills no variant.
-/
namespace ValueGrammar

variable {fragments : List String} {slot : Nat} {text value : String}

/-! ### Edited fragments -/

/-- An edit cuts off the fragments from the slot on, puts one more behind the last or replaces one. -/
theorem editedFragments_eq (within : slot ≤ fragments.length) :
    editedFragments fragments slot text =
      if (Text.trim text).isEmpty then (fragments.map Text.trim).take slot
      else if slot = fragments.length then fragments.map Text.trim ++ [Text.trim text]
      else (fragments.map Text.trim).set slot (Text.trim text) := by
  unfold editedFragments
  dsimp only
  split
  · rfl
  · split
    · next behind =>
      have all : (fragments.map Text.trim).length = slot := by rw [List.length_map, behind]
      rw [List.take_of_length_le (Nat.le_of_eq all),
        List.drop_of_length_le (all ▸ Nat.le_succ slot)]
    · next other =>
      have inside : slot < (fragments.map Text.trim).length := by
        rw [List.length_map]
        omega
      rw [List.set_eq_take_append_cons_drop, if_pos inside]

/-- The fragments before the slot stay. -/
theorem take_editedFragments (within : slot ≤ fragments.length) :
    (editedFragments fragments slot text).take slot = (fragments.map Text.trim).take slot := by
  have length : ((fragments.map Text.trim).take slot).length = slot := by
    rw [List.length_take, List.length_map, Nat.min_eq_left within]
  unfold editedFragments
  dsimp only
  split
  · rw [List.take_take, Nat.min_self]
  · exact List.take_left' length

namespace Context

variable {context : Context} {expansion : Expansion}

/-! ### Kept fragments -/

/-- What an edit of a slot keeps of the edited fragments: all of them, or those up to the slot if no
variant admits all of them. -/
structure Keeps (context : Context) (expansion : Expansion) (edited : List String) (slot : Nat)
    (kept : List String) : Prop where
  front : kept <+: edited
  allOrUpTo : kept = edited ∨ kept = edited.take (slot + 1)
  all : ∀ variant ∈ expansion.variants, edited.length ≤ variant.length →
    context.Admits variant edited → kept = edited

theorem Keeps.take_eq {edited kept : List String} (keeps : context.Keeps expansion edited slot kept) :
    kept.take slot = edited.take slot := by
  rcases keeps.allOrUpTo with rfl | rfl
  · rfl
  · rw [List.take_take, Nat.min_eq_left (Nat.le_succ slot)]

theorem filler_eq_error {place : Place} {e : Error} (failed : context.filler place = .error e) :
    e = .missingDefault place.key := by
  unfold filler at failed
  split at failed
  · cases failed
    rfl
  · split at failed
    · cases failed
    · cases failed

/-- A draft that fits a variant is not to blame if it has no form. -/
theorem isMismatch_eq_false_of_fits {draft : Draft} {variant : Variant}
    (member : variant ∈ expansion.variants) (fits : context.fits draft variant = true) {e : Error}
    (failed : context.formOf expansion draft = .error e) : e.isMismatch = false := by
  obtain ⟨found, matched⟩ := exists_match? member fits
  unfold formOf at failed
  rcases bind_eq_error.mp failed with unmatched | ⟨found', -, later⟩
  · rw [matching_eq_ok.mpr matched] at unmatched
    cases unmatched
  · rcases bind_eq_error.mp later with unfilled | ⟨literals, -, made⟩
    · obtain ⟨place, -, missing⟩ := mapM_eq_error.mp unfilled
      rw [filler_eq_error missing]
      rfl
    · cases made

/-- Texts that a variant admits are not to blame if they are not completed. -/
theorem isMismatch_eq_false_of_admits {texts : List String} {variant : Variant}
    (member : variant ∈ expansion.variants) (admits : context.Admits variant texts) {e : Error}
    (failed : context.completed expansion texts = .error e) : e.isMismatch = false := by
  unfold completed at failed
  rcases bind_eq_error.mp failed with undrafted | ⟨draft, drafted, later⟩
  · obtain ⟨draft, drafted⟩ := admits.exists_draft none
    rw [drafted] at undrafted
    cases undrafted
  · have free := (draft_eq_ok.mp drafted).1
    have fits := (fits_iff drafted variant).mpr ⟨admits, sameSeparators_of_none free variant⟩
    rcases bind_eq_error.mp later with unformed | ⟨form, -, made⟩
    · exact isMismatch_eq_false_of_fits member fits unformed
    · cases made

/-- Where something is left of the value, an edit completes what it keeps. -/
theorem exists_keeps (edited : context.editIn expansion fragments slot text = .ok value)
    (left : editedFragments fragments slot text ≠ []) :
    ∃ kept, context.Keeps expansion (editedFragments fragments slot text) slot kept ∧
      context.completed expansion kept = .ok value := by
  rcases editIn_cases edited with ⟨empty, -⟩ | completed | ⟨⟨e, failed, mismatch⟩, completed⟩
  · exact absurd empty left
  · exact ⟨_, ⟨List.prefix_rfl, Or.inl rfl, fun _ _ _ _ => rfl⟩, completed⟩
  · -- The fragments behind the slot are given up after a mismatch alone.
    refine ⟨_, ⟨List.take_prefix _ _, Or.inr rfl, fun variant member _ admits => ?_⟩, completed⟩
    rw [isMismatch_eq_false_of_admits member admits failed] at mismatch
    cases mismatch

/-- Texts are completed by a variant that admits them, and by nothing else if they fill one. -/
theorem completed_eq_ok_of_filled {texts : List String}
    (completed : context.completed expansion texts = .ok value) :
    ∃ variant ∈ expansion.variants, context.Admits variant texts ∧
      ∃ literals, context.FilledBy (variant.places.drop texts.length) literals ∧
        value = Separator.join (texts ++ literals) variant.separators ∧
        ∀ other ∈ expansion.variants, other.length = texts.length →
          context.Admits other texts → literals = [] := by
  by_cases filled : ∃ other ∈ expansion.variants,
      other.length = texts.length ∧ context.Admits other texts
  · obtain ⟨other, member, fills⟩ := filled
    obtain ⟨variant, first⟩ := exists_isFirst
      (p := fun v => v.length = texts.length ∧ context.Admits v texts) member fills
    obtain ⟨same, admits⟩ := first.1
    rw [completed_of_isFirst first] at completed
    cases completed
    refine ⟨variant, first.mem, admits, [], ?_, by rw [List.append_nil], fun _ _ _ _ => rfl⟩
    rw [List.drop_of_length_le (Nat.le_of_eq same)]
    exact .nil
  · obtain ⟨variant, member, admits, literals, fillers, written⟩ := completed_eq_ok completed
    exact ⟨variant, member, admits, literals, fillers, written, fun other inside same fits =>
      absurd ⟨other, inside, same, fits⟩ filled⟩

/-! ### Edits -/

/-- An edit changes only what it must. It leaves the empty value where it leaves no fragments.
Otherwise the fragments before the slot stay; those behind it stay if some variant admits them all,
and else all of them are given up. A variant admits the kept fragments one by one, and they are
written with its separators, followed by one literal for each of its further places: by none at all
if they fill a variant. Where a literal is there for every place, nothing else is refused than
fragments up to the slot that no variant admits. -/
theorem edit_changes {grammar : String} (expanded : context.expand grammar = .ok expansion)
    (structured : expansion.isStructured = true) (within : slot ≤ fragments.length)
    (text : String) :
    ∃ edited, edited =
        (if (Text.trim text).isEmpty then (fragments.map Text.trim).take slot
        else if slot = fragments.length then fragments.map Text.trim ++ [Text.trim text]
        else (fragments.map Text.trim).set slot (Text.trim text)) ∧
      (edited = [] → context.edit grammar fragments slot text = .ok "") ∧
      (context.Fills expansion →
        ((∃ value, context.edit grammar fragments slot text = .ok value) ↔
          edited = [] ∨ ∃ variant ∈ expansion.variants,
            context.Admits variant (edited.take (slot + 1)))) ∧
      ∀ value, context.edit grammar fragments slot text = .ok value → edited ≠ [] →
        ∃ kept, context.Keeps expansion edited slot kept ∧
          kept.take slot = (fragments.map Text.trim).take slot ∧
          ∃ variant ∈ expansion.variants, kept.length ≤ variant.length ∧
            context.Admits variant kept ∧
            ∃ literals, context.FilledBy (variant.places.drop kept.length) literals ∧
              value = Separator.join (kept ++ literals) variant.separators ∧
              ∀ other ∈ expansion.variants, other.length = kept.length →
                context.Admits other kept → literals = [] := by
  rw [edit_eq_editIn expanded structured within]
  refine ⟨editedFragments fragments slot text, editedFragments_eq within, fun none => ?_,
    fun fills => editIn_ok_iff fills, fun value edited left => ?_⟩
  · unfold editIn
    dsimp only
    rw [none]
    rfl
  · obtain ⟨kept, keeps, completed⟩ := exists_keeps edited left
    obtain ⟨variant, member, admits, filled⟩ := completed_eq_ok_of_filled completed
    exact ⟨kept, keeps, keeps.take_eq.trans (take_editedFragments within), variant, member,
      admits.length_le, admits, filled⟩

/-- A length does not go with the keyword of another variant: it is given up for a color. -/
theorem edit_changes_keyword :
    ∃ expansion, standard.expand "auto <color> | <length> <length>" = .ok expansion ∧
      expansion.isStructured = true ∧ 0 ≤ ["10px", "20px"].length ∧
      standard.edit "auto <color> | <length> <length>" ["10px", "20px"] 0 " auto " =
        .ok "auto #ffffff" ∧
      ∃ kept, standard.Keeps expansion ["auto", "20px"] 0 kept ∧
        kept.take 0 = (["10px", "20px"].map Text.trim).take 0 ∧
        ∃ variant ∈ expansion.variants, kept.length ≤ variant.length ∧
          standard.Admits variant kept ∧
          ∃ literals, standard.FilledBy (variant.places.drop kept.length) literals ∧
            "auto #ffffff" = Separator.join (kept ++ literals) variant.separators ∧
            ∀ other ∈ expansion.variants, other.length = kept.length →
              standard.Admits other kept → literals = [] := by
  have found : (standard.expand "auto <color> | <length> <length>").toOption.any
      (fun expansion => expansion.isStructured) = true := by decide +kernel
  obtain ⟨expansion, expanded, structured⟩ := exists_ok_of_any found
  have given : standard.edit "auto <color> | <length> <length>" ["10px", "20px"] 0 " auto " =
      .ok "auto #ffffff" := by
    have written : (standard.edit "auto <color> | <length> <length>" ["10px", "20px"] 0
        " auto ").toOption.any (· == "auto #ffffff") = true := by decide +kernel
    obtain ⟨value, edited, same⟩ := exists_ok_of_any written
    rw [edited, eq_of_beq same]
  have within : 0 ≤ ["10px", "20px"].length := Nat.zero_le 2
  obtain ⟨edited, described, -, -, kept⟩ := edit_changes expanded structured within " auto "
  have replaced : edited = ["auto", "20px"] := described.trans (by decide +kernel)
  subst replaced
  exact ⟨expansion, expanded, structured, within, given, kept _ given (by simp)⟩

end Context

end ValueGrammar
