import ValueGrammar.Proofs.Value.Splitting

/-!
Joined fragments, split again. Splitting gives back what has been joined if and only if it is a row
of fragments, of which only the last one may be open. Fragments that stand alone make such a row,
and so do the fragments of any value; a value that has been split and joined once stays as it is.
-/
namespace ValueGrammar.Fragments

variable {boundaries : List Separator}

/-! ### Splitting undoes joining -/

/-- What splitting undoes the joining of is a row, and nothing else is. -/
theorem split_join_iff {texts : List String} {separators : List Separator}
    (count : separators.length = texts.length - 1) (inside : separators ⊆ boundaries) :
    split boundaries (Separator.join texts separators) = ⟨texts, separators⟩ ↔
      IsRow boundaries texts := by
  constructor
  · intro again
    have row := split_isRow boundaries (Separator.join texts separators)
    rwa [again] at row
  · intro row
    exact split_join row count fun s member => inside member

/-- A text that is its own only fragment, behind which a scanner is outside quotes and parentheses. -/
structure StandsAlone (text : String) : Prop where
  only : (ofValue text).texts = [text]
  closed : Closed text.toList

theorem StandsAlone.fragment {text : String} (alone : StandsAlone text) :
    IsFragment Separator.all text.toList :=
  (split_isRow Separator.all text).fragments text (alone.only ▸ List.mem_cons_self)

instance (text : String) : Decidable (StandsAlone text) :=
  decidable_of_iff ((ofValue text).texts = [text] ∧ Closed text.toList)
    ⟨fun h => ⟨h.1, h.2⟩, fun h => ⟨h.only, h.closed⟩⟩

/-- Fragments that stand alone are found again after they are joined, and so are the separators
between them. -/
theorem ofValue_join {texts : List String} {separators : List Separator}
    (alone : ∀ text ∈ texts, StandsAlone text) (count : separators.length + 1 = texts.length) :
    ofValue (Separator.join texts separators) = ⟨texts, separators⟩ := by
  have row : IsRow Separator.all texts :=
    ⟨fun text member => (alone text member).fragment,
      fun text member => (alone text (List.dropLast_subset texts member)).closed⟩
  exact (split_join_iff (by omega) fun s _ => Separator.mem_all s).mpr row

theorem ofValue_join_quoted :
    (∀ text ∈ ["rgb(0, 0, 0)", "\"a / b\"", "10px"], StandsAlone text) ∧
      ofValue "rgb(0, 0, 0) / \"a / b\", 10px" =
        ⟨["rgb(0, 0, 0)", "\"a / b\"", "10px"], [.slash, .comma]⟩ := by
  have alone : ∀ text ∈ ["rgb(0, 0, 0)", "\"a / b\"", "10px"], StandsAlone text := by
    decide +kernel
  have joined : Separator.join ["rgb(0, 0, 0)", "\"a / b\"", "10px"] [.slash, .comma] =
      "rgb(0, 0, 0) / \"a / b\", 10px" := by decide +kernel
  exact ⟨alone, joined ▸ ofValue_join alone rfl⟩

/-! ### A value is normalized once and for all -/

theorem mem_of_merge {pending : Option Separator} {s : Separator} (inside : s ∈ boundaries)
    (insideBefore : ∀ previous ∈ pending, previous ∈ boundaries) :
    Separator.merge pending s ∈ boundaries := by
  unfold Separator.merge
  split
  · exact insideBefore _ rfl
  · exact inside

/-- The separators of fragments are among those that cut the value. -/
theorem follow_separators {rest : List (Separator × List Char)} {pending : Option Separator}
    (inside : ∀ entry ∈ rest, entry.1 ∈ boundaries)
    (insideBefore : ∀ previous ∈ pending, previous ∈ boundaries) :
    (follow pending rest).map (·.1) ⊆ boundaries := by
  induction rest generalizing pending with
  | nil => exact List.nil_subset boundaries
  | cons entry rest ih =>
    obtain ⟨s, run⟩ := entry
    have merged := mem_of_merge (inside (s, run) List.mem_cons_self) insideBefore
    have later : ∀ entry ∈ rest, entry.1 ∈ boundaries := fun entry member =>
      inside entry (List.mem_cons_of_mem _ member)
    by_cases blank : Text.trimChars run = []
    · rw [follow_blank blank]
      exact ih later (by simpa using merged)
    · rw [follow_solid blank, List.map_cons, List.cons_subset]
      exact ⟨merged, ih later (by simp)⟩

theorem separators_subset (boundaries : List Separator) (value : String) :
    (split boundaries value).separators ⊆ boundaries := by
  obtain ⟨-, -, runs, -⟩ := cut_runs boundaries Nesting.outside value.toList
  have followed : (follow none (cut boundaries Nesting.outside value.toList).2).map (·.1) ⊆
      boundaries := follow_separators (fun entry member => (runs entry member).1) (by simp)
  rw [split]
  unfold collect
  split
  · exact fun s member => followed (List.mem_of_mem_tail member)
  · exact followed

/-- Splitting a value again after its fragments have been joined changes nothing, whatever the value
is; and only boundaries stand between the fragments. -/
theorem split_value_split (boundaries : List Separator) (value : String) :
    split boundaries (split boundaries value).value = split boundaries value ∧
      (split boundaries value).separators ⊆ boundaries := by
  have inside := separators_subset boundaries value
  exact ⟨split_join (split_isRow boundaries value) (length_split_separators boundaries value)
    fun s member => inside member, inside⟩

end ValueGrammar.Fragments
