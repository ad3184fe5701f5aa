import ValueGrammar.Proofs.Value.Splitting

/-!
The values that splitting and joining leave as they are. They are the tidy ones: wherever a
separator stands outside quotes and parentheses, it is written as between two fragments. A row of
texts is tidy when each of them is, met with the nesting that the ones before it leave behind.
-/
namespace ValueGrammar

open Unicode Text

namespace Fragments

/-- A text whose separators outside quotes and parentheses are written as between two fragments,
when a scanner comes to it with a nesting. -/
inductive Tidy : Nesting → List Char → Prop
  | nil (nesting : Nesting) : Tidy nesting []
  | pass {nesting : Nesting} {c : Char} {cs : List Char}
      (solid : boundary? Separator.all nesting c = none) (later : Tidy (nesting.advance c) cs) :
      Tidy nesting (c :: cs)
  | separator {whole : List Char} (s : Separator) {c : Char} {cs : List Char}
      (written : whole = s.text.toList ++ c :: cs) (solid : Separator.ofChar? c = none)
      (later : Tidy Nesting.outside (c :: cs)) : Tidy Nesting.outside whole

/-- Texts one after the other that are tidy, each met with the nesting behind those before it. -/
def TidyRow : Nesting → List String → Prop
  | _, [] => True
  | nesting, text :: texts =>
    Tidy nesting text.toList ∧ TidyRow (nesting.after text.toList) texts

/-! ### Separators as they are written -/

theorem ofChar?_of_mem_text {s : Separator} {c : Char} (member : c ∈ s.text.toList) :
    (Separator.ofChar? c).isSome = true := by
  have all : s.text.toList.all (fun c => (Separator.ofChar? c).isSome) = true := by
    cases s <;> decide
  exact List.all_eq_true.mp all c member

theorem text_ne_nil (s : Separator) : s.text.toList ≠ [] := by
  cases s <;> decide

theorem after_separator {nesting : Nesting} (quoted : QuoteIsQuote nesting) {cs : List Char}
    (separators : ∀ c ∈ cs, (Separator.ofChar? c).isSome = true) : nesting.after cs = nesting := by
  induction cs with
  | nil => rfl
  | cons c cs ih =>
    obtain ⟨s, found⟩ := Option.isSome_iff_exists.mp (separators c List.mem_cons_self)
    change (nesting.advance c).after cs = nesting
    rw [Nesting.advance_separator quoted found]
    exact ih fun d member => separators d (List.mem_cons_of_mem c member)

theorem after_text {nesting : Nesting} (quoted : QuoteIsQuote nesting) (s : Separator) :
    nesting.after s.text.toList = nesting :=
  after_separator quoted fun _ member => ofChar?_of_mem_text member

/-- A text within a separator is empty if it does not end with one. -/
theorem eq_nil_of_within {s : Separator} {cs : List Char} (within : ∀ d ∈ cs, d ∈ s.text.toList)
    (solid : ∀ c ∈ cs.getLast?, Separator.ofChar? c = none) : cs = [] := by
  by_contra nonempty
  have last := List.getLast?_eq_some_getLast nonempty
  have separates := ofChar?_of_mem_text (within _ (List.mem_of_mem_getLast? last))
  rw [solid _ last] at separates
  cases separates

/-- Two separators with text behind them are the same if they are written the same. -/
theorem text_append_inj {s s' : Separator} {c c' : Char} {cs cs' : List Char}
    (solid : Separator.ofChar? c = none) (solid' : Separator.ofChar? c' = none)
    (same : s.text.toList ++ c :: cs = s'.text.toList ++ c' :: cs') :
    s = s' ∧ c :: cs = c' :: cs' := by
  have different {d e : Char} (found : Separator.ofChar? d = none)
      (strange : (Separator.ofChar? e).isSome = true) : d ≠ e := by
    intro equal
    rw [equal] at found
    rw [found] at strange
    cases strange
  have notSlash := different solid (e := '/') (by decide)
  have notSlash' := different solid' (e := '/') (by decide)
  cases s <;> cases s' <;>
    simp_all [Separator.text, notSlash'.symm]

/-! ### Tidiness of texts in a row -/

theorem Tidy.append {nesting : Nesting} {front back : List Char} (tidy : Tidy nesting front)
    (behind : Tidy (nesting.after front) back) : Tidy nesting (front ++ back) := by
  induction tidy with
  | nil nesting => exact behind
  | pass solid _ ih => exact .pass solid (ih behind)
  | @separator whole s c cs written solid _ ih =>
    rw [written, Nesting.after_append, after_text Nesting.outside_quoted] at behind
    exact .separator s (by simp [written]) solid (ih behind)

/-- A text in front that does not end with a separator is tidy by itself. -/
theorem Tidy.of_append {nesting : Nesting} {front back : List Char}
    (tidy : Tidy nesting (front ++ back))
    (solid : ∀ c ∈ front.getLast?, Separator.ofChar? c = none) :
    Tidy nesting front ∧ Tidy (nesting.after front) back := by
  generalize whole : front ++ back = cs at tidy
  induction tidy generalizing front with
  | nil nesting =>
    obtain ⟨rfl, rfl⟩ := List.append_eq_nil_iff.mp whole
    exact ⟨.nil nesting, .nil nesting⟩
  | @pass nesting c cs passes later ih =>
    cases front with
    | nil =>
      rw [List.nil_append] at whole
      exact ⟨.nil nesting, whole ▸ .pass passes later⟩
    | cons d front =>
      obtain ⟨rfl, rest⟩ := List.cons_eq_cons.mp whole
      have solidLater : ∀ c ∈ front.getLast?, Separator.ofChar? c = none := by
        intro c last
        cases front with
        | nil => cases last
        | cons e front => exact solid c (by simpa using last)
      obtain ⟨here, there⟩ := ih solidLater rest
      exact ⟨.pass passes here, there⟩
  | @separator whole' s c cs written solid' later ih =>
    -- the front either is empty or goes past the whole separator
    have trivially (within : ∀ d ∈ front, d ∈ s.text.toList) :
        Tidy Nesting.outside front ∧ Tidy (Nesting.outside.after front) back := by
      obtain rfl := eq_nil_of_within within solid
      rw [List.nil_append] at whole
      subst whole
      exact ⟨.nil _, .separator s written solid' later⟩
    rw [written] at whole
    rcases List.append_eq_append_iff.mp whole with ⟨more, text, -⟩ | ⟨more, beyond, rest⟩
    · exact trivially fun d member => by simp [text, member]
    · cases more with
      | nil => exact trivially fun d member => by simpa [beyond] using member
      | cons d more =>
        obtain ⟨rfl, -⟩ := List.cons_eq_cons.mp rest
        have solidLater : ∀ e ∈ (c :: more).getLast?, Separator.ofChar? e = none := by
          intro e last
          apply solid e
          rw [beyond, List.getLast?_append, last]
          rfl
        obtain ⟨here, there⟩ := ih solidLater rest.symm
        rw [beyond, Nesting.after_append, after_text Nesting.outside_quoted]
        exact ⟨.separator s rfl solid' here, there⟩

/-- Inside quotes or parentheses separators say nothing. -/
theorem tidy_inside_iff {nesting : Nesting} (quoted : QuoteIsQuote nesting)
    (inside : nesting ≠ Nesting.outside) {front back : List Char}
    (separators : ∀ d ∈ front, (Separator.ofChar? d).isSome = true) :
    Tidy nesting (front ++ back) ↔ Tidy nesting back := by
  induction front with
  | nil => rfl
  | cons d front ih =>
    obtain ⟨s, found⟩ := Option.isSome_iff_exists.mp (separators d List.mem_cons_self)
    have stays := Nesting.advance_separator quoted found
    rw [← ih fun e member => separators e (List.mem_cons_of_mem d member)]
    constructor
    · intro tidy
      cases tidy with
      | pass _ later => exact stays ▸ later
      | separator => exact absurd rfl inside
    · intro tidy
      exact .pass (boundary?_inside inside d) (by rw [stays]; exact tidy)

/-- Outside of them a separator that is written as it has to be is tidy. -/
theorem tidy_outside_iff (s : Separator) {c : Char} (cs : List Char)
    (solid : Separator.ofChar? c = none) :
    Tidy Nesting.outside (s.text.toList ++ c :: cs) ↔ Tidy Nesting.outside (c :: cs) := by
  constructor
  · intro tidy
    generalize whole : s.text.toList ++ c :: cs = text at tidy
    cases tidy with
    | nil => simp at whole
    | @pass _ d ds passes later =>
      have member : d ∈ s.text.toList := by
        cases spelled : s.text.toList with
        | nil => exact absurd spelled (text_ne_nil s)
        | cons e rest =>
          rw [spelled] at whole
          obtain ⟨rfl, -⟩ := List.cons_eq_cons.mp whole
          exact List.mem_cons_self
      obtain ⟨s', found⟩ := Option.isSome_iff_exists.mp (ofChar?_of_mem_text member)
      rw [boundary?_outside found (Separator.mem_all s')] at passes
      cases passes
    | separator s' written solid' later =>
      rw [written] at whole
      rw [(text_append_inj solid solid' whole).2]
      exact later
  · exact .separator s rfl solid

theorem tidy_separator_iff {nesting : Nesting} (quoted : QuoteIsQuote nesting) (s : Separator)
    {c : Char} (cs : List Char) (solid : Separator.ofChar? c = none) :
    Tidy nesting (s.text.toList ++ c :: cs) ↔ Tidy nesting (c :: cs) := by
  by_cases outside : nesting = Nesting.outside
  · subst outside
    exact tidy_outside_iff s cs solid
  · exact tidy_inside_iff quoted outside fun d member => ofChar?_of_mem_text member

/-- Texts that can stand next to a separator. -/
structure Joinable (texts : List String) : Prop where
  starts : ∀ text ∈ texts, ∃ c cs, text.toList = c :: cs ∧ Separator.ofChar? c = none
  ends : ∀ text ∈ texts.dropLast, ∀ c ∈ text.toList.getLast?, Separator.ofChar? c = none

theorem Joinable.tail {text : String} {texts : List String} (joinable : Joinable (text :: texts)) :
    Joinable texts := by
  constructor
  · exact fun other member => joinable.starts other (List.mem_cons_of_mem _ member)
  · intro other member
    apply joinable.ends
    cases texts with
    | nil => cases member
    | cons next texts => exact List.mem_cons_of_mem _ member

theorem exists_join_head {text : String} {texts : List String} (separators : List Separator)
    (joinable : Joinable (text :: texts)) :
    ∃ c cs, (Separator.join (text :: texts) separators).toList = c :: cs ∧
      Separator.ofChar? c = none := by
  obtain ⟨c, cs, spelled, solid⟩ := joinable.starts text List.mem_cons_self
  cases texts with
  | nil => exact ⟨c, cs, spelled, solid⟩
  | cons next texts =>
    refine ⟨c, cs ++ ((separators.headD .space).text.toList ++
      (Separator.join (next :: texts) separators.tail).toList), ?_, solid⟩
    simp [Separator.join, spelled]

/-- Joining texts adds nothing that is untidy. -/
theorem tidy_join_iff {nesting : Nesting} (quoted : QuoteIsQuote nesting) {texts : List String}
    (separators : List Separator) (joinable : Joinable texts) :
    Tidy nesting (Separator.join texts separators).toList ↔ TidyRow nesting texts := by
  induction texts generalizing nesting separators with
  | nil => exact ⟨fun _ => trivial, fun _ => .nil nesting⟩
  | cons text texts ih =>
    cases texts with
    | nil => simp [Separator.join, TidyRow]
    | cons next texts =>
      have whole : (Separator.join (text :: next :: texts) separators).toList =
          text.toList ++ ((separators.headD .space).text.toList ++
            (Separator.join (next :: texts) separators.tail).toList) := by
        simp [Separator.join]
      have quotedLater := Nesting.after_quoted quoted text.toList
      obtain ⟨c, cs, spelled, solid⟩ :=
        exists_join_head separators.tail joinable.tail
      have later := ih quotedLater separators.tail joinable.tail
      have step := tidy_separator_iff quotedLater (separators.headD .space) cs solid
      rw [← spelled, later] at step
      rw [whole, TidyRow]
      constructor
      · intro tidy
        obtain ⟨here, there⟩ := tidy.of_append (joinable.ends text (by simp))
        exact ⟨here, step.mp there⟩
      · intro given
        obtain ⟨here, there⟩ := given
        exact here.append (step.mpr there)

/-! ### Fragments are tidy -/

theorem tidy_of_uncut {nesting : Nesting} {cs : List Char}
    (uncut : Uncut Separator.all nesting cs) : Tidy nesting cs := by
  induction cs generalizing nesting with
  | nil => exact .nil nesting
  | cons c cs ih =>
    obtain ⟨solid, later⟩ := uncut_cons_iff.mp uncut
    exact .pass solid (ih later)

theorem tidyRow_of_isRow {texts : List String} (row : IsRow Separator.all texts) :
    TidyRow Nesting.outside texts := by
  induction texts with
  | nil => trivial
  | cons text texts ih =>
    refine ⟨tidy_of_uncut (row.fragments text List.mem_cons_self).uncut, ?_⟩
    cases texts with
    | nil => trivial
    | cons next texts =>
      have closed : Nesting.outside.after text.toList = Nesting.outside :=
        row.closed text List.mem_cons_self
      rw [closed]
      exact ih row.tail

/-- A text that is not cut does not end with a separator, unless the separator is quoted or
enclosed. -/
theorem ends_solid_of_uncut {nesting : Nesting} (quoted : QuoteIsQuote nesting) {cs : List Char}
    (uncut : Uncut Separator.all nesting cs) (closed : nesting.after cs = Nesting.outside) :
    ∀ c ∈ cs.getLast?, Separator.ofChar? c = none := by
  intro c last
  obtain ⟨front, rfl⟩ := List.getLast?_eq_some_iff.mp last
  rw [uncut_append_iff, uncut_cons_iff] at uncut
  rw [Nesting.after_append] at closed
  by_contra separates
  obtain ⟨s, found⟩ := Option.ne_none_iff_exists'.mp separates
  have stays := Nesting.advance_separator (Nesting.after_quoted quoted front) found
  have outside : nesting.after front = Nesting.outside := by
    rw [← closed]
    exact stays.symm
  have cuts := uncut.2.1
  rw [outside, boundary?_outside found (Separator.mem_all s)] at cuts
  cases cuts

theorem IsFragment.starts_solid {cs : List Char} (fragment : IsFragment Separator.all cs) :
    ∃ c rest, cs = c :: rest ∧ Separator.ofChar? c = none := by
  obtain ⟨c, rest, rfl⟩ := List.exists_cons_of_ne_nil fragment.nonempty
  refine ⟨c, rest, rfl, ?_⟩
  have solid := (uncut_cons_iff.mp fragment.uncut).1
  by_contra separates
  obtain ⟨s, found⟩ := Option.ne_none_iff_exists'.mp separates
  rw [boundary?_outside found (Separator.mem_all s)] at solid
  cases solid

theorem IsRow.joinable {texts : List String} (row : IsRow Separator.all texts) :
    Joinable texts := by
  constructor
  · exact fun text member => (row.fragments text member).starts_solid
  · intro text member
    have fragment := row.fragments text (List.dropLast_subset texts member)
    exact ends_solid_of_uncut Nesting.outside_quoted fragment.uncut (row.closed text member)

/-! ### Tidy values are rows of fragments -/

def trail (rest : List (Separator × List Char)) : List Char :=
  rest.flatMap fun entry => entry.1.text.toList ++ entry.2

theorem toList_join (text : List Char) (rest : List (Separator × List Char)) :
    (Separator.join (String.ofList text :: rest.map (String.ofList ·.2))
      (rest.map (·.1))).toList = text ++ trail rest := by
  induction rest generalizing text with
  | nil => simp [Separator.join, trail]
  | cons entry rest ih =>
    obtain ⟨s, next⟩ := entry
    have later := ih next
    simp only [List.map_cons, Separator.join, List.headD_cons, List.tail_cons, String.toList_append,
      String.toList_ofList, later]
    simp [trail]

/-- The first run of a text that neither starts nor ends with a separator is a fragment. -/
theorem isFragment_first_run {c : Char} {cs run : List Char} {rest : List (Separator × List Char)}
    (start : Separator.ofChar? c = none) (split : c :: cs = run ++ trail rest)
    (solid : ∀ d ∈ (c :: cs).getLast?, Separator.ofChar? d = none)
    (uncut : Uncut Separator.all Nesting.outside run)
    (closed : rest ≠ [] → Nesting.outside.after run = Nesting.outside) :
    IsFragment Separator.all run := by
  obtain ⟨others, rfl⟩ : ∃ others, run = c :: others := by
    cases run with
    | cons d others =>
      obtain ⟨rfl, -⟩ := List.cons_eq_cons.mp split
      exact ⟨others, rfl⟩
    | nil =>
      obtain _ | ⟨⟨s, next⟩, rest⟩ := rest
      · cases split
      · have member : c ∈ s.text.toList := by
          obtain ⟨d, ds, spelled⟩ := List.exists_cons_of_ne_nil (text_ne_nil s)
          have first : c = d := by
            simp only [trail, List.flatMap_cons, spelled, List.nil_append, List.cons_append,
              List.cons.injEq] at split
            exact split.1
          simp [spelled, first]
        have separates := ofChar?_of_mem_text member
        rw [start] at separates
        cases separates
  refine ⟨by simp, trimChars_of_solid_ends ?_, uncut⟩
  intro d atEnd
  apply Separator.isBlank_of_ofChar?
  rcases atEnd with first | last
  · obtain rfl : c = d := by simpa using first
    exact start
  · by_cases alone : rest = []
    · subst alone
      rw [trail, List.flatMap_nil, List.append_nil] at split
      exact solid d (split ▸ last)
    · exact ends_solid_of_uncut Nesting.outside_quoted uncut (closed alone) d last

/-- The runs of a tidy text. -/
theorem Tidy.exists_runs {nesting : Nesting} {cs : List Char} (tidy : Tidy nesting cs)
    (quoted : QuoteIsQuote nesting) (solid : ∀ c ∈ cs.getLast?, Separator.ofChar? c = none) :
    ∃ run rest, cs = run ++ trail rest ∧ Uncut Separator.all nesting run ∧
      (rest ≠ [] → nesting.after run = Nesting.outside) ∧
      (∀ entry ∈ rest, IsFragment Separator.all entry.2) ∧
      ∀ entry ∈ rest.dropLast, Closed entry.2 := by
  induction tidy with
  | nil nesting => exact ⟨[], [], rfl, uncut_nil, by simp, by simp, by simp⟩
  | @pass nesting c cs passes later ih =>
    have solidLater : ∀ d ∈ cs.getLast?, Separator.ofChar? d = none := by
      intro d last
      cases cs with
      | nil => cases last
      | cons e cs => exact solid d (by simpa using last)
    obtain ⟨run, rest, rfl, uncut, closed, fragments, closedLater⟩ :=
      ih (quoted.advance c) solidLater
    exact ⟨c :: run, rest, rfl, uncut_cons_iff.mpr ⟨passes, uncut⟩, closed, fragments, closedLater⟩
  | @separator whole s c cs written start later ih =>
    have solidLater : ∀ d ∈ (c :: cs).getLast?, Separator.ofChar? d = none := by
      intro d last
      apply solid d
      rw [written, List.getLast?_append, last]
      rfl
    obtain ⟨run, rest, split, uncut, closed, fragments, closedLater⟩ := ih quoted solidLater
    refine ⟨[], (s, run) :: rest, by simp [written, split, trail], uncut_nil, fun _ => rfl, ?_, ?_⟩
    · intro entry member
      rcases List.mem_cons.mp member with rfl | behind
      · exact isFragment_first_run start split solidLater uncut closed
      · exact fragments entry behind
    · intro entry member
      cases rest with
      | nil => cases member
      | cons next rest =>
        rcases List.mem_cons.mp member with rfl | behind
        · exact closed (by simp)
        · exact closedLater entry behind

/-- Runs that are fragments, all but the last of them closed, make a row. -/
theorem isRow_of_runs {run : List Char} {rest : List (Separator × List Char)}
    (first : IsFragment Separator.all run)
    (closed : rest ≠ [] → Nesting.outside.after run = Nesting.outside)
    (fragments : ∀ entry ∈ rest, IsFragment Separator.all entry.2)
    (closedLater : ∀ entry ∈ rest.dropLast, Closed entry.2) :
    IsRow Separator.all (String.ofList run :: rest.map (String.ofList ·.2)) := by
  constructor
  · intro text member
    rcases List.mem_cons.mp member with rfl | behind
    · rw [String.toList_ofList]
      exact first
    · obtain ⟨entry, inside, rfl⟩ := List.mem_map.mp behind
      rw [String.toList_ofList]
      exact fragments entry inside
  · intro text member
    cases rest with
    | nil => cases member
    | cons next rest =>
      rw [List.map_cons, List.dropLast_cons_cons] at member
      rcases List.mem_cons.mp member with rfl | behind
      · unfold Closed
        rw [String.toList_ofList]
        exact closed (by simp)
      · rw [← List.map_cons (f := fun entry : Separator × List Char => String.ofList entry.2),
          ← List.map_dropLast] at behind
        obtain ⟨entry, inside, rfl⟩ := List.mem_map.mp behind
        rw [String.toList_ofList]
        exact closedLater entry inside

/-- A value that neither starts nor ends with a separator is left as it is by splitting and
joining if and only if it is tidy. -/
theorem value_ofValue_iff_tidy {value : String} {c : Char} {cs : List Char}
    (spelled : value.toList = c :: cs) (start : Separator.ofChar? c = none)
    (solid : ∀ d ∈ value.toList.getLast?, Separator.ofChar? d = none) :
    (ofValue value).value = value ↔ Tidy Nesting.outside value.toList := by
  constructor
  · intro same
    have row := split_isRow Separator.all value
    have tidy := tidyRow_of_isRow row
    rw [← tidy_join_iff Nesting.outside_quoted (split Separator.all value).separators
      row.joinable] at tidy
    rw [← same]
    exact tidy
  · intro tidy
    obtain ⟨run, rest, whole, uncut, closed, fragments, closedLater⟩ :=
      tidy.exists_runs Nesting.outside_quoted solid
    rw [spelled] at whole solid
    have first := isFragment_first_run start whole solid uncut closed
    have joined : value = Separator.join (String.ofList run :: rest.map (String.ofList ·.2))
        (rest.map (·.1)) := by
      rw [← String.toList_inj, toList_join, spelled, whole]
    have row := isRow_of_runs first closed fragments closedLater
    have again : ofValue value =
        ⟨String.ofList run :: rest.map (String.ofList ·.2), rest.map (·.1)⟩ := by
      rw [joined]
      exact split_join row (by simp) fun s _ => Separator.mem_all s
    rw [again]
    exact joined.symm

theorem exists_join_last {texts : List String} (separators : List Separator)
    (nonempty : texts ≠ []) :
    ∃ front, ∃ text ∈ texts,
      (Separator.join texts separators).toList = front ++ text.toList := by
  induction texts generalizing separators with
  | nil => exact absurd rfl nonempty
  | cons text texts ih =>
    cases texts with
    | nil => exact ⟨[], text, List.mem_cons_self, rfl⟩
    | cons next texts =>
      obtain ⟨front, last, member, whole⟩ := ih separators.tail (by simp)
      refine ⟨text.toList ++ (separators.headD .space).text.toList ++ front, last,
        List.mem_cons_of_mem text member, ?_⟩
      simp [Separator.join, whole]

/-- A value joined from texts that neither start nor end with a separator is left as it is by
splitting and joining if and only if its texts are tidy. -/
theorem value_ofValue_join_iff {texts : List String} (separators : List Separator)
    (joinable : Joinable texts)
    (ends : ∀ text ∈ texts, ∀ c ∈ text.toList.getLast?, Separator.ofChar? c = none) :
    (ofValue (Separator.join texts separators)).value = Separator.join texts separators ↔
      TidyRow Nesting.outside texts := by
  obtain _ | ⟨text, texts⟩ := texts
  · exact ⟨fun _ => trivial, fun _ => rfl⟩
  · obtain ⟨c, cs, spelled, start⟩ := exists_join_head separators joinable
    obtain ⟨front, last, member, whole⟩ :=
      exists_join_last separators (List.cons_ne_nil text texts)
    have solid : ∀ d ∈ (Separator.join (text :: texts) separators).toList.getLast?,
        Separator.ofChar? d = none := by
      intro d atEnd
      obtain ⟨e, es, spelledLast, -⟩ := joinable.starts last member
      apply ends last member d
      have found := List.getLast?_eq_some_getLast (List.cons_ne_nil e es)
      rw [whole, List.getLast?_append, spelledLast, found] at atEnd
      rw [spelledLast, found]
      exact atEnd
    rw [value_ofValue_iff_tidy spelled start solid]
    exact tidy_join_iff Nesting.outside_quoted separators joinable

end Fragments

end ValueGrammar
