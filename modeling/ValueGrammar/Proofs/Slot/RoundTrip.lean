import ValueGrammar.Proofs.Slot.Defaults

/-!
Edited values, split and joined again. An edited value consists of fragments that have been typed
and of literals for the rest of a variant, with the separators of the variant between them. It is
found again if its fragments are tidy; only strings, links and color functions can fail to be, as
they are recognised by their ends alone.
-/
namespace ValueGrammar

open Fragments Category

/-! ### The fragments of an edited value -/

theorem trim_of_mem_editedFragments {fragments : List String} {slot : Nat} {text fragment : String}
    (member : fragment ∈ editedFragments fragments slot text) : Text.trim fragment = fragment := by
  have trimmed {other : String} (inside : other ∈ fragments.map Text.trim) :
      Text.trim other = other := by
    obtain ⟨raw, -, rfl⟩ := List.mem_map.mp inside
    exact Text.trim_trim raw
  unfold editedFragments at member
  dsimp only at member
  split at member
  · exact trimmed (List.mem_of_mem_take member)
  · rcases List.mem_append.mp member with front | behind
    · exact trimmed (List.mem_of_mem_take front)
    · rcases List.mem_cons.mp behind with rfl | later
      · exact Text.trim_trim text
      · exact trimmed (List.mem_of_mem_drop later)

/-- An edit keeps all edited fragments or the first ones. -/
theorem subset_of_kept {edited kept : List String} {count : Nat}
    (front : kept = edited ∨ kept = edited.take count) : kept ⊆ edited := by
  rcases front with rfl | rfl
  · exact List.Subset.refl _
  · exact List.take_subset _ _

/-- A trimmed text that a place takes is one fragment or known by its ends. -/
theorem whole_or_known_of_takes {place : Place} {text : String}
    (takes : Context.standard.Takes place text) (trimmed : Text.trim text = text) :
    Whole text ∨ KnownByEnds text := by
  obtain ⟨⟨category, known, accepted⟩, -⟩ := takes
  rw [trimmed] at accepted
  exact whole_or_known_of_accepted known accepted

theorem isRow_of_whole {texts : List String} (whole : ∀ text ∈ texts, Whole text) :
    IsRow Separator.all texts :=
  ⟨fun text member => (whole text member).fragment,
    fun text member => (whole text (List.dropLast_subset texts member)).closed⟩

/-- The fragments of a closed value are whole. -/
theorem whole_of_mem_ofValue {value fragment : String} (closed : Closed value.toList)
    (member : fragment ∈ (ofValue value).texts) : Whole fragment :=
  ⟨(split_isRow Separator.all value).fragments fragment member,
    (closed_iff_texts Separator.all value).mp closed fragment member⟩

theorem joinable_of_solidEnds {texts : List String} (solid : ∀ text ∈ texts, SolidEnds text) :
    Joinable texts := by
  constructor
  · intro text member
    have ends := solid text member
    obtain ⟨c, cs, spelled⟩ := List.exists_cons_of_ne_nil ends.nonempty
    exact ⟨c, cs, spelled, ends.ends c (Or.inl (by simp [spelled]))⟩
  · intro text member c last
    exact (solid text (List.dropLast_subset texts member)).ends c (Or.inr last)

/-- Fragments with solid ends and separators between them round-trip if and only if they are tidy. -/
theorem round_trips_iff {texts : List String} (solid : ∀ text ∈ texts, SolidEnds text)
    (separators : List Separator) :
    (ofValue (Separator.join texts separators)).value = Separator.join texts separators ↔
      TidyRow Nesting.outside texts :=
  value_ofValue_join_iff separators (joinable_of_solidEnds solid)
    fun text member c last => (solid text member).ends c (Or.inr last)

/-! ### Edited values -/

/-- Whole texts that a variant admits, and the literals for its further places, are found again. -/
theorem split_filled {grammar : String} {expansion : Expansion} {items : List Lexeme} {tree : Tree}
    (derivation : Derivation Context.standard grammar expansion items tree) {variant : Variant}
    (member : variant ∈ expansion.variants) {texts literals : List String}
    (admits : Context.standard.Admits variant texts)
    (filled : Context.standard.FilledBy (variant.places.drop texts.length) literals)
    (whole : ∀ text ∈ texts, Whole text) :
    ofValue (Separator.join (texts ++ literals) variant.separators) =
      ⟨texts ++ literals, variant.separators⟩ := by
  have wholeAll : ∀ text ∈ texts ++ literals, Whole text := by
    intro text inside
    rcases List.mem_append.mp inside with typed | literal
    · exact whole text typed
    · exact whole_of_filledBy derivation member filled text literal
  refine split_join (isRow_of_whole wholeAll) ?_ fun s _ => Separator.mem_all s
  rw [derivation.length_separators member, admits.length_filled filled]

/-- An edited value starts with the edited fragments, or with those up to the edited one, and goes on
with literals. The former are one fragment of a value each or known by their ends, the latter are one
fragment each. The value round-trips if and only if this row
is tidy, and it is split into the row itself if all the edited fragments are whole. -/
theorem edit_round_trips_iff {grammar text value : String} {fragments : List String} {slot : Nat}
    (edited : Context.standard.edit grammar fragments slot text = .ok value) :
    ∃ kept literals separators,
      (kept = editedFragments fragments slot text ∨
          kept = (editedFragments fragments slot text).take (slot + 1)) ∧
        value = Separator.join (kept ++ literals) separators ∧
        (∀ fragment ∈ kept, Whole fragment ∨ KnownByEnds fragment) ∧
        (∀ literal ∈ literals, Whole literal) ∧
        ((ofValue value).value = value ↔ TidyRow Nesting.outside (kept ++ literals)) ∧
        ((∀ fragment ∈ kept, Whole fragment) → ofValue value = ⟨kept ++ literals, separators⟩) := by
  obtain ⟨-, expansion, expanded, structured, edits⟩ := Context.edit_eq_ok.mp edited
  obtain ⟨items, tree, derivation⟩ := exists_derivation expanded structured
  rcases Context.editIn_eq_ok edits with ⟨empty, rfl⟩ | ⟨kept, front, completed⟩
  · exact ⟨[], [], [], Or.inl empty.symm, rfl, by simp, by simp,
      ⟨fun _ => trivial, fun _ => rfl⟩, fun _ => rfl⟩
  · obtain ⟨variant, member, admits, literals, filled, rfl⟩ := Context.completed_eq_ok completed
    have recognised : ∀ fragment ∈ kept, Whole fragment ∨ KnownByEnds fragment := by
      intro fragment inside
      obtain ⟨place, -, takes⟩ := admits.takes fragment inside
      exact whole_or_known_of_takes takes (trim_of_mem_editedFragments (subset_of_kept front inside))
    have whole := whole_of_filledBy derivation member filled
    have solid : ∀ fragment ∈ kept ++ literals, SolidEnds fragment := by
      intro fragment inside
      rcases List.mem_append.mp inside with typed | literal
      · exact (recognised fragment typed).elim Whole.solidEnds KnownByEnds.solidEnds
      · exact (whole fragment literal).solidEnds
    exact ⟨kept, literals, variant.separators, front, rfl, recognised, whole,
      round_trips_iff solid variant.separators, split_filled derivation member admits filled⟩

theorem edit_round_trips_iff_two_strings :
    ∃ value, Context.standard.edit "<string> <length>" [] 0 "\"a\" \"b\"" = .ok value ∧
      ∃ kept literals separators,
        (kept = editedFragments [] 0 "\"a\" \"b\"" ∨
            kept = (editedFragments [] 0 "\"a\" \"b\"").take 1) ∧
          value = Separator.join (kept ++ literals) separators ∧
          (∀ fragment ∈ kept, Whole fragment ∨ KnownByEnds fragment) ∧
          (∀ literal ∈ literals, Whole literal) ∧
          ((ofValue value).value = value ↔ TidyRow Nesting.outside (kept ++ literals)) ∧
          ((∀ fragment ∈ kept, Whole fragment) →
            ofValue value = ⟨kept ++ literals, separators⟩) := by
  have found : (Context.standard.edit "<string> <length>" [] 0 "\"a\" \"b\"").toOption.any
      (fun value => value == "\"a\" \"b\" 0px") = true := by decide +kernel
  obtain ⟨value, edited, -⟩ := exists_ok_of_any found
  exact ⟨value, edited, edit_round_trips_iff edited⟩

/-- Two blanks between two strings that are taken for one are not found again. -/
theorem edit_does_not_round_trip :
    ¬ ∀ (grammar : String) (fragments : List String) (slot : Nat) (text value : String),
      Context.standard.edit grammar fragments slot text = .ok value →
        (ofValue value).value = value := by
  intro claimed
  have found : (Context.standard.edit "<string>" [] 0 "\"a\"  \"b\"").toOption.any
      (fun value => (ofValue value).value != value) = true := by decide +kernel
  obtain ⟨value, edited, lost⟩ := exists_ok_of_any found
  exact bne_iff_ne.mp lost (claimed _ _ _ _ _ edited)

end ValueGrammar
