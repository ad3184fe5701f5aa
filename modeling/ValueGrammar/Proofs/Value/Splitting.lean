import ValueGrammar.Proofs.Value.Cutting

/-!
Splitting and joining. A value is split into fragments of which only the last one may be open, and
such fragments are what splitting gives back after they are joined with separators.
-/
namespace ValueGrammar

open Unicode Text

namespace Fragments

variable {boundaries : List Separator}

/-! ### Fragments of a value -/

/-- Trimming a run takes away nothing that a scanner would notice. -/
theorem uncut_trimChars {cs : List Char} (uncut : Uncut boundaries Nesting.outside cs) :
    Uncut boundaries Nesting.outside (trimChars cs) ∧
      Nesting.outside.after (trimChars cs) = Nesting.outside.after cs := by
  obtain ⟨before, after, blankBefore, blankAfter, whole⟩ := exists_trimChars cs
  have front : Nesting.outside.after before = Nesting.outside :=
    Nesting.after_blanks Nesting.outside_quoted blankBefore
  have back := Nesting.after_blanks
    (Nesting.after_quoted Nesting.outside_quoted (trimChars cs)) blankAfter
  rw [whole, List.append_assoc] at uncut
  have inner := (uncut_append_iff.mp uncut).2
  rw [front] at inner
  refine ⟨(uncut_append_iff.mp inner).1, ?_⟩
  calc Nesting.outside.after (trimChars cs)
      = (Nesting.outside.after (trimChars cs)).after after := back.symm
    _ = Nesting.outside.after (before ++ (trimChars cs ++ after)) := by
      rw [Nesting.after_append, front, Nesting.after_append]
    _ = Nesting.outside.after cs := by rw [← List.append_assoc, ← whole]

def solidRuns (runs : List (List Char)) : List (List Char) :=
  (runs.map trimChars).filter (· ≠ [])

theorem solidRuns_cons (run : List Char) (runs : List (List Char)) :
    solidRuns (run :: runs) =
      if trimChars run = [] then solidRuns runs else trimChars run :: solidRuns runs := by
  unfold solidRuns
  by_cases blank : trimChars run = []
  · simp [blank]
  · simp [blank]

theorem follow_blank {s : Separator} {run : List Char} (blank : trimChars run = [])
    (pending : Option Separator) (rest : List (Separator × List Char)) :
    follow pending ((s, run) :: rest) = follow (some (Separator.merge pending s)) rest := by
  simp only [follow, blank]

theorem follow_solid {s : Separator} {run : List Char} (solid : trimChars run ≠ [])
    (pending : Option Separator) (rest : List (Separator × List Char)) :
    follow pending ((s, run) :: rest) =
      (Separator.merge pending s, trimChars run) :: follow none rest := by
  rw [follow]
  split
  · next blank => exact absurd blank solid
  · rfl

theorem follow_texts (pending : Option Separator) (rest : List (Separator × List Char)) :
    (follow pending rest).map (·.2) = solidRuns (rest.map (·.2)) := by
  induction rest generalizing pending with
  | nil => rfl
  | cons entry rest ih =>
    obtain ⟨s, run⟩ := entry
    rw [List.map_cons, solidRuns_cons]
    by_cases blank : trimChars run = []
    · rw [follow_blank blank, ih, if_pos blank]
    · rw [follow_solid blank, List.map_cons, ih, if_neg blank]

theorem collect_texts (run : List Char) (rest : List (Separator × List Char)) :
    (collect run rest).texts.map String.toList = solidRuns (run :: rest.map (·.2)) := by
  have texts : ((follow none rest).map (String.ofList ·.2)).map String.toList =
      solidRuns (rest.map (·.2)) := by
    rw [← follow_texts none rest, List.map_map]
    exact List.map_congr_left fun found _ => by simp
  rw [solidRuns_cons]
  unfold collect
  split
  · next blank => rw [texts, if_pos blank]
  · next solid =>
    rw [if_neg solid, List.map_cons, texts, String.toList_ofList]

theorem collect_separators (run : List Char) (rest : List (Separator × List Char)) :
    (collect run rest).separators.length = (collect run rest).texts.length - 1 := by
  unfold collect
  split <;> simp

/-- Fragments of which all but the last are closed. -/
structure IsRow (boundaries : List Separator) (texts : List String) : Prop where
  fragments : ∀ text ∈ texts, IsFragment boundaries text.toList
  closed : ∀ text ∈ texts.dropLast, Closed text.toList

theorem mem_dropLast_solidRuns {runs : List (List Char)} {text : List Char}
    (member : text ∈ (solidRuns runs).dropLast) :
    ∃ run ∈ runs.dropLast, text = trimChars run := by
  induction runs with
  | nil => cases member
  | cons run runs ih =>
    rw [solidRuns_cons] at member
    have later (behind : text ∈ (solidRuns runs).dropLast) :
        ∃ found ∈ (run :: runs).dropLast, text = trimChars found := by
      obtain ⟨found, inside, same⟩ := ih behind
      cases runs with
      | nil => cases inside
      | cons next others => exact ⟨found, List.mem_cons_of_mem _ inside, same⟩
    split at member
    · exact later member
    · cases rest : solidRuns runs with
      | nil =>
        rw [rest] at member
        cases member
      | cons next others =>
        rw [rest, List.dropLast_cons_cons] at member
        rcases List.mem_cons.mp member with rfl | behind
        · refine ⟨run, ?_, rfl⟩
          cases runs with
          | nil => cases rest
          | cons _ _ => exact List.mem_cons_self
        · exact later (rest ▸ behind)

theorem mem_solidRuns {runs : List (List Char)} {text : List Char} :
    text ∈ solidRuns runs ↔ text ≠ [] ∧ ∃ run ∈ runs, text = trimChars run := by
  simp only [solidRuns, List.mem_filter, List.mem_map, decide_eq_true_eq]
  constructor
  · intro given
    obtain ⟨⟨run, member, same⟩, solid⟩ := given
    exact ⟨solid, run, member, same.symm⟩
  · intro given
    obtain ⟨solid, run, member, same⟩ := given
    exact ⟨⟨run, member, same.symm⟩, solid⟩

/-- A value is split into fragments, of which only the last one may be open. -/
theorem split_isRow (boundaries : List Separator) (value : String) :
    IsRow boundaries (split boundaries value).texts := by
  obtain ⟨uncut, closed, runs, closedRuns⟩ :=
    cut_runs boundaries Nesting.outside value.toList
  have texts := collect_texts (cut boundaries Nesting.outside value.toList).1
    (cut boundaries Nesting.outside value.toList).2
  have uncutRuns : ∀ run ∈ (cut boundaries Nesting.outside value.toList).1 ::
      (cut boundaries Nesting.outside value.toList).2.map (·.2),
      Uncut boundaries Nesting.outside run := by
    intro run member
    rcases List.mem_cons.mp member with rfl | behind
    · exact uncut
    · obtain ⟨entry, inside, rfl⟩ := List.mem_map.mp behind
      exact (runs entry inside).2
  constructor
  · intro text member
    have inside : text.toList ∈ (split boundaries value).texts.map String.toList :=
      List.mem_map_of_mem member
    rw [split, texts] at inside
    obtain ⟨solid, run, found, same⟩ := mem_solidRuns.mp inside
    refine ⟨solid, ?_, ?_⟩
    · rw [same, trimChars_trimChars]
    · rw [same]
      exact (uncut_trimChars (uncutRuns run found)).1
  · intro text member
    have inside : text.toList ∈ ((split boundaries value).texts.map String.toList).dropLast := by
      rw [List.map_dropLast.symm]
      exact List.mem_map_of_mem member
    rw [split, texts] at inside
    obtain ⟨run, found, same⟩ := mem_dropLast_solidRuns inside
    unfold Closed
    rw [same, (uncut_trimChars (uncutRuns run (List.dropLast_subset _ found))).2]
    cases rest : (cut boundaries Nesting.outside value.toList).2 with
    | nil =>
      rw [rest] at found
      cases found
    | cons next others =>
      rw [rest, List.map_cons, List.dropLast_cons_cons] at found
      rcases List.mem_cons.mp found with rfl | behind
      · exact closed (by simp [rest])
      · rw [← List.map_cons (f := fun run : Separator × List Char => run.2), ← rest,
          List.map_dropLast.symm] at behind
        obtain ⟨entry, last, rfl⟩ := List.mem_map.mp behind
        exact closedRuns entry last

theorem length_split_separators (boundaries : List Separator) (value : String) :
    (split boundaries value).separators.length = (split boundaries value).texts.length - 1 :=
  collect_separators _ _

theorem trim_of_mem_ofValue {value fragment : String} (member : fragment ∈ (ofValue value).texts) :
    Text.trim fragment = fragment := by
  have inside := (split_isRow Separator.all value).fragments fragment member
  rw [Text.trim, inside.trimmed, String.ofList_toList]

theorem map_trim_ofValue (value : String) :
    (ofValue value).texts.map Text.trim = (ofValue value).texts := by
  calc (ofValue value).texts.map Text.trim
      = (ofValue value).texts.map id :=
        List.map_congr_left fun fragment member => trim_of_mem_ofValue member
    _ = (ofValue value).texts := List.map_id _

/-- A value is closed if all its fragments are. -/
theorem closed_iff_texts (boundaries : List Separator) (value : String) :
    Closed value.toList ↔ ∀ text ∈ (split boundaries value).texts, Closed text.toList := by
  obtain ⟨uncut, -, runs, -⟩ := cut_runs boundaries Nesting.outside value.toList
  have texts := collect_texts (cut boundaries Nesting.outside value.toList).1
    (cut boundaries Nesting.outside value.toList).2
  have closedRun {run : List Char} (uncut : Uncut boundaries Nesting.outside run) :
      Closed (trimChars run) ↔ Closed run := by
    rw [Closed, (uncut_trimChars uncut).2, Closed]
  unfold Closed
  rw [after_cut_iff boundaries]
  constructor
  · intro given text member
    obtain ⟨first, others⟩ := given
    have inside : text.toList ∈ (split boundaries value).texts.map String.toList :=
      List.mem_map_of_mem member
    rw [split, texts] at inside
    obtain ⟨-, run, found, same⟩ := mem_solidRuns.mp inside
    rw [same]
    rcases List.mem_cons.mp found with rfl | behind
    · exact (closedRun uncut).mpr first
    · obtain ⟨entry, last, rfl⟩ := List.mem_map.mp behind
      exact (closedRun (runs entry last).2).mpr (others entry last)
  · intro given
    have solid {run : List Char} (member : run ∈ (cut boundaries Nesting.outside value.toList).1 ::
        (cut boundaries Nesting.outside value.toList).2.map (·.2)) : Closed (trimChars run) := by
      by_cases blank : trimChars run = []
      · rw [blank]
        rfl
      · have inside := mem_solidRuns.mpr ⟨blank, run, member, rfl⟩
        rw [← texts] at inside
        obtain ⟨text, found, same⟩ := List.mem_map.mp inside
        rw [← same]
        exact given text found
    refine ⟨(closedRun uncut).mp (solid List.mem_cons_self), ?_⟩
    intro entry member
    exact (closedRun (runs entry member).2).mp
      (solid (List.mem_cons_of_mem _ (List.mem_map_of_mem member)))

/-! ### Joining and splitting again -/

theorem trimChars_blank_cons {c : Char} (blank : isBlank c = true) (cs : List Char) :
    trimChars (c :: cs) = trimChars cs := by
  simp [trimChars, dropBlanks, blank]

theorem IsFragment.trimChars_append {cs : List Char} (fragment : IsFragment boundaries cs)
    {after : List Char} (blank : ∀ c ∈ after, isBlank c = true) :
    trimChars (cs ++ after) = cs := by
  obtain ⟨first, last⟩ := trimChars_stops cs
  rw [fragment.trimmed] at first last
  have start : StopsBefore isBlank (cs ++ after) := by
    intro c head
    apply first c
    cases shape : cs with
    | nil => exact absurd shape fragment.nonempty
    | cons d ds =>
      rw [shape] at head
      exact head
  have turned : ∀ c ∈ after.reverse, isBlank c = true := fun c member =>
    blank c (List.mem_reverse.mp member)
  rw [trimChars, dropBlanks_eq_self start, List.reverse_append, dropBlanks,
    dropWhile_append_stop turned last, List.reverse_reverse]

/-- A separator in front of a run that is not blank is found again, with nothing but blanks before
it. -/
theorem cut_separator {s : Separator} (inside : s ∈ boundaries) (cs : List Char)
    (solid : trimChars (cut boundaries Nesting.outside cs).1 ≠ []) :
    ∃ blank rest, cut boundaries Nesting.outside (s.text.toList ++ cs) = (blank, rest) ∧
      (∀ c ∈ blank, isBlank c = true) ∧
      follow none rest = (s, trimChars (cut boundaries Nesting.outside cs).1) ::
        follow none (cut boundaries Nesting.outside cs).2 := by
  generalize behind : cut boundaries Nesting.outside cs = found at solid ⊢
  have isSpace : Separator.ofChar? ' ' = some .space := by decide
  have isComma : Separator.ofChar? ',' = some .comma := by decide
  have isSlash : Separator.ofChar? '/' = some .slash := by decide
  have stays : Nesting.outside.advance ' ' = Nesting.outside := rfl
  have padded : trimChars (' ' :: found.1) = trimChars found.1 :=
    trimChars_blank_cons (by decide) found.1
  by_cases spaces : Separator.space ∈ boundaries
  · have atSpace := cut_boundary (boundary?_outside isSpace spaces) cs
    rw [behind] at atSpace
    cases s with
    | space =>
      refine ⟨[], _, atSpace, by simp, ?_⟩
      exact follow_solid solid none _
    | comma =>
      have atComma := cut_boundary (boundary?_outside isComma inside) (' ' :: cs)
      rw [atSpace] at atComma
      refine ⟨[], _, atComma, by simp, ?_⟩
      rw [follow_blank rfl, follow_solid solid]
      rfl
    | slash =>
      have atSlash := cut_boundary (boundary?_outside isSlash inside) (' ' :: cs)
      have before := cut_boundary (boundary?_outside isSpace spaces) ('/' :: ' ' :: cs)
      rw [atSlash, atSpace] at before
      refine ⟨[], _, before, by simp, ?_⟩
      rw [follow_blank rfl, follow_blank rfl, follow_solid solid]
      rfl
  · have atNoSpace : boundary? boundaries Nesting.outside ' ' = none :=
      boundary?_excluded isSpace spaces
    have overSpace := cut_solid atNoSpace cs
    rw [stays, behind] at overSpace
    cases s with
    | space => exact absurd inside spaces
    | comma =>
      have atComma := cut_boundary (boundary?_outside isComma inside) (' ' :: cs)
      rw [overSpace] at atComma
      refine ⟨[], _, atComma, by simp, ?_⟩
      rw [follow_solid (padded ▸ solid), padded]
      rfl
    | slash =>
      have atSlash := cut_boundary (boundary?_outside isSlash inside) (' ' :: cs)
      have before := cut_solid atNoSpace ('/' :: ' ' :: cs)
      rw [stays, atSlash, overSpace] at before
      refine ⟨[' '], _, before, List.forall_mem_singleton.mpr (by decide), ?_⟩
      rw [follow_solid (padded ▸ solid), padded]
      rfl

theorem IsRow.tail {text : String} {texts : List String}
    (row : IsRow boundaries (text :: texts)) : IsRow boundaries texts := by
  constructor
  · exact fun other member => row.fragments other (List.mem_cons_of_mem _ member)
  · intro other member
    apply row.closed
    cases texts with
    | nil => cases member
    | cons next texts => exact List.mem_cons_of_mem _ member

theorem cut_join {text : String} {texts : List String} {separators : List Separator}
    (row : IsRow boundaries (text :: texts)) (count : separators.length = texts.length)
    (inside : ∀ s ∈ separators, s ∈ boundaries) :
    ∃ blank rest, cut boundaries Nesting.outside
        (Separator.join (text :: texts) separators).toList = (text.toList ++ blank, rest) ∧
      (∀ c ∈ blank, isBlank c = true) ∧
      follow none rest = separators.zip (texts.map String.toList) := by
  have fragment := row.fragments text List.mem_cons_self
  induction texts generalizing text separators with
  | nil =>
    obtain rfl := List.length_eq_zero_iff.mp count
    have alone : cut boundaries Nesting.outside text.toList = (text.toList, []) := fragment.uncut
    exact ⟨[], [], by simpa [Separator.join] using alone, by simp, rfl⟩
  | cons next texts ih =>
    obtain _ | ⟨s, separators⟩ := separators
    · cases count
    · have closed : Nesting.outside.after text.toList = Nesting.outside :=
        row.closed text List.mem_cons_self
      have fragment' := row.tail.fragments next List.mem_cons_self
      obtain ⟨blank, rest, cutLater, blanks, followed⟩ := ih row.tail (by simpa using count)
        (fun other member => inside other (List.mem_cons_of_mem _ member)) fragment'
      have trimmed := fragment'.trimChars_append blanks
      obtain ⟨blank', rest', cutHere, blanks', followed'⟩ := cut_separator
        (inside s List.mem_cons_self) (Separator.join (next :: texts) separators).toList
        (by rw [cutLater, trimmed]; exact fragment'.nonempty)
      refine ⟨blank', rest', ?_, blanks', ?_⟩
      · have whole : (Separator.join (text :: next :: texts) (s :: separators)).toList =
            text.toList ++ (s.text.toList ++
              (Separator.join (next :: texts) separators).toList) := by
          simp [Separator.join]
        rw [whole, cut_append fragment.uncut, closed, cutHere]
      · rw [followed', cutLater, trimmed, followed]
        rfl

/-- Splitting undoes joining, also when the last fragment is open. -/
theorem split_join {texts : List String} {separators : List Separator}
    (row : IsRow boundaries texts) (count : separators.length = texts.length - 1)
    (inside : ∀ s ∈ separators, s ∈ boundaries) :
    split boundaries (Separator.join texts separators) = ⟨texts, separators⟩ := by
  cases texts with
  | nil =>
    obtain rfl := List.length_eq_zero_iff.mp count
    rfl
  | cons text texts =>
    have sameCount : separators.length = texts.length := by simpa using count
    obtain ⟨blank, rest, runs, blanks, followed⟩ := cut_join row sameCount inside
    have fragment := row.fragments text List.mem_cons_self
    have first := fragment.trimChars_append blanks
    have later : (separators.zip (texts.map String.toList)).map (·.2) = texts.map String.toList :=
      List.map_snd_zip (by simp [sameCount])
    have between : (separators.zip (texts.map String.toList)).map (·.1) = separators :=
      List.map_fst_zip (by simp [sameCount])
    rw [split]
    simp only [runs]
    unfold collect
    split
    · next blank => exact absurd (first.symm.trans blank) fragment.nonempty
    · rw [first, followed, String.ofList_toList]
      dsimp only
      rw [between]
      congr 1
      have restored := congrArg (List.map String.ofList) later
      rw [List.map_map, List.map_map] at restored
      have identity : texts.map (String.ofList ∘ String.toList) = texts := by simp
      rw [identity] at restored
      exact congrArg (text :: ·) restored

/-- Rows of fragments joined by separators are the same only if the separators are. -/
theorem join_inj {texts : List String} {separators separators' : List Separator}
    (row : IsRow Separator.all texts) (count : separators.length = texts.length - 1)
    (count' : separators'.length = texts.length - 1) :
    Separator.join texts separators = Separator.join texts separators' ↔
      separators = separators' := by
  constructor
  · intro same
    have split := split_join row count fun s _ => Separator.mem_all s
    rw [same, split_join row count' fun s _ => Separator.mem_all s] at split
    exact (congrArg Fragments.separators split).symm
  · exact congrArg (Separator.join texts)

/-! ### Beginnings of a value -/

def take (fragments : Fragments) (count : Nat) : Fragments :=
  ⟨fragments.texts.take count, fragments.separators.take (count - 1)⟩

theorem length_take (fragments : Fragments) (count : Nat) :
    (fragments.take count).length = min count fragments.length :=
  List.length_take

theorem length_separators_take {fragments : Fragments}
    (between : fragments.separators.length = fragments.length - 1) (count : Nat) :
    (fragments.take count).separators.length = (fragments.take count).length - 1 := by
  rw [length_take, take, List.length_take, between]
  omega

theorem take_take (fragments : Fragments) {i j : Nat} (le : i ≤ j) :
    (fragments.take j).take i = fragments.take i := by
  unfold take
  dsimp only
  rw [List.take_take, List.take_take, Nat.min_eq_left le, Nat.min_eq_left (by omega)]

theorem take_length (value : String) : (ofValue value).take (ofValue value).length = ofValue value := by
  unfold take length
  rw [List.take_length, ofValue, ← length_split_separators, List.take_length]

/-- Only the last fragment of a row may be open, so the first ones are a row. -/
theorem IsRow.front {front texts : List String} (row : IsRow boundaries texts)
    (initial : front <+: texts) : IsRow boundaries front := by
  obtain ⟨back, rfl⟩ := initial
  constructor
  · exact fun text member => row.fragments text (List.mem_append_left back member)
  · intro text member
    apply row.closed
    by_cases whole : back = []
    · rw [whole, List.append_nil]
      exact member
    · rw [List.dropLast_append_of_ne_nil whole]
      exact List.mem_append_left _ (List.dropLast_subset front member)

/-- The beginning of a value is split into the first fragments of the value. -/
theorem ofValue_take (value : String) (count : Nat) :
    ofValue ((ofValue value).take count).value = (ofValue value).take count := by
  have row := (split_isRow Separator.all value).front (List.take_prefix count _)
  have between := length_separators_take (length_split_separators Separator.all value) count
  exact split_join row between fun s _ => Separator.mem_all s

end Fragments

end ValueGrammar
