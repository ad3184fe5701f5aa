import ValueGrammar.Proofs.Value.Splitting
import ValueGrammar.Proofs.Value.TopLevel

/-!
The fragments of a value, described by the places of its characters. The runs of a value are the
stretches between two neighbouring boundaries at the top level; the fragments are the runs that are
not blank, and the separator of two fragments is that of the last comma or slash among the boundaries
between them. A value has one list of fragments that fits this description, and splitting gives it.
-/
namespace ValueGrammar

open Unicode Text

namespace Fragments

/-! ### Runs and fragments -/

/-- At a place of a text stands a character at the top level whose separator is a boundary. -/
def IsBoundary (boundaries : List Separator) (cs : List Char) (place : Nat) (s : Separator) : Prop :=
  ∃ c, cs[place]? = some c ∧ EndsAtTopLevel (cs.take place) ∧ Separator.ofChar? c = some s ∧
    s ∈ boundaries

/-- The characters from one place of a text up to another one. -/
structure Run where
  start : Nat
  stop : Nat
  deriving DecidableEq, Repr

def Run.chars (run : Run) (cs : List Char) : List Char :=
  (cs.drop run.start).take (run.stop - run.start)

theorem Run.chars_of_take {start : Nat} {cs run : List Char}
    (written : (cs.drop start).take run.length = run) :
    (Run.mk start (start + run.length)).chars cs = run := by
  rw [Run.chars, Nat.add_sub_cancel_left, written]

/-- A maximal run between boundaries: none stands inside it, and on either side of it stands one or
ends the text. -/
structure IsRun (boundaries : List Separator) (cs : List Char) (run : Run) : Prop where
  ordered : run.start ≤ run.stop
  uncut : ∀ place s, run.start ≤ place → place < run.stop → ¬ IsBoundary boundaries cs place s
  starts : run.start = 0 ∨ ∃ place s, run.start = place + 1 ∧ IsBoundary boundaries cs place s
  stops : run.stop = cs.length ∨ ∃ s, IsBoundary boundaries cs run.stop s

/-- The separator of the boundaries from one place up to another one: that of the last comma or
slash among them, or a space if there is none. -/
inductive SeparatorBetween (boundaries : List Separator) (cs : List Char) (start stop : Nat) :
    Separator → Prop
  | space (only : ∀ place s, start ≤ place → place < stop → IsBoundary boundaries cs place s →
      s = .space) : SeparatorBetween boundaries cs start stop .space
  | delimiter {place : Nat} {s : Separator} (after : start ≤ place) (before : place < stop)
      (found : IsBoundary boundaries cs place s) (solid : s ≠ .space)
      (last : ∀ later s', place < later → later < stop → IsBoundary boundaries cs later s' →
        s' = .space) : SeparatorBetween boundaries cs start stop s

/-- The fragments of a text and the runs that they come from: all the runs that are not blank, from
the first to the last, trimmed; with one separator less than there are fragments. -/
structure ComesFrom (boundaries : List Separator) (cs : List Char) (fragments : Fragments)
    (runs : List Run) : Prop where
  sorted : runs.Pairwise fun left right => left.stop < right.start
  complete : ∀ run, run ∈ runs ↔ IsRun boundaries cs run ∧ trimChars (run.chars cs) ≠ []
  texts : fragments.texts = runs.map fun run => String.ofList (trimChars (run.chars cs))
  count : fragments.separators.length = fragments.texts.length - 1
  separators : ∀ i left right s, runs[i]? = some left → runs[i + 1]? = some right →
    fragments.separators[i]? = some s → SeparatorBetween boundaries cs left.stop right.start s

variable {boundaries : List Separator} {cs : List Char}

/-! ### Places of cuts -/

theorem isBoundary_iff {front back : List Char} {c : Char} {s : Separator} :
    IsBoundary boundaries (front ++ c :: back) front.length s ↔
      boundary? boundaries (Nesting.outside.after front) c = some s := by
  have here : (front ++ c :: back)[front.length]? = some c := by simp
  have before : (front ++ c :: back).take front.length = front := by simp
  unfold IsBoundary
  rw [here, before, ← closed_iff_endsAtTopLevel]
  constructor
  · intro given
    obtain ⟨d, same, closed, isSeparator, inside⟩ := given
    cases same
    rw [closed, boundary?_outside isSeparator inside]
  · intro found
    obtain ⟨closed, isSeparator, inside⟩ := boundary?_eq_some found
    exact ⟨c, rfl, closed, isSeparator, inside⟩

theorem IsBoundary.unique {place : Nat} {s s' : Separator}
    (first : IsBoundary boundaries cs place s) (second : IsBoundary boundaries cs place s') :
    s = s' := by
  obtain ⟨c, here, -, isSeparator, -⟩ := first
  obtain ⟨c', here', -, isSeparator', -⟩ := second
  cases here.symm.trans here'
  exact Option.some.inj (isSeparator.symm.trans isSeparator')

theorem IsBoundary.lt_length {place : Nat} {s : Separator}
    (found : IsBoundary boundaries cs place s) : place < cs.length := by
  obtain ⟨c, here, -⟩ := found
  exact (List.getElem?_eq_some_iff.mp here).1

/-- The cuts of a text from a place on, each with the run behind it, where they stand in the text. -/
inductive Laid (boundaries : List Separator) (cs : List Char) :
    Nat → List (Separator × List Char) → Prop
  | nil : Laid boundaries cs cs.length []
  | cons {place : Nat} {s : Separator} {run : List Char} {rest : List (Separator × List Char)}
      (found : IsBoundary boundaries cs place s)
      (uncut : ∀ later s', place < later → later < place + 1 + run.length →
        ¬ IsBoundary boundaries cs later s')
      (written : (cs.drop (place + 1)).take run.length = run)
      (behind : Laid boundaries cs (place + 1 + run.length) rest) :
      Laid boundaries cs place ((s, run) :: rest)

/-- What a text is cut into behind a front that the scanner has passed. -/
theorem laid_of_cut {front cs first : List Char} {rest : List (Separator × List Char)}
    (cuts : cut boundaries (Nesting.outside.after front) cs = (first, rest)) :
    (∀ place s, front.length ≤ place → place < front.length + first.length →
        ¬ IsBoundary boundaries (front ++ cs) place s) ∧
      cs.take first.length = first ∧
      Laid boundaries (front ++ cs) (front.length + first.length) rest := by
  induction cs generalizing front first rest with
  | nil =>
    cases cuts
    rw [List.append_nil]
    exact ⟨fun place s low high => absurd high (Nat.not_lt_of_le low), rfl, .nil⟩
  | cons c cs ih =>
    have passed : Nesting.outside.after (front ++ [c]) = (Nesting.outside.after front).advance c :=
      Nesting.after_append _ _ _
    have whole : front ++ [c] ++ cs = front ++ c :: cs := (List.append_cons front c cs).symm
    have length : (front ++ [c]).length = front.length + 1 := by simp
    cases found : boundary? boundaries (Nesting.outside.after front) c with
    | none =>
      rcases later : cut boundaries ((Nesting.outside.after front).advance c) cs with ⟨within, behind⟩
      rw [cut_solid found, later] at cuts
      obtain ⟨rfl, rfl⟩ := Prod.mk.inj cuts
      obtain ⟨uncut, written, laid⟩ := ih (passed ▸ later)
      rw [whole, length] at uncut laid
      have sum : front.length + (c :: within).length = front.length + 1 + within.length := by
        simp only [List.length_cons]
        omega
      rw [sum]
      refine ⟨?_, by rw [List.length_cons, List.take_succ_cons, written], laid⟩
      intro place s low high
      rcases Nat.eq_or_lt_of_le low with rfl | above
      · rw [isBoundary_iff, found]
        exact nofun
      · exact uncut place s above high
    | some s =>
      obtain ⟨outside, isSeparator, -⟩ := boundary?_eq_some found
      have stays : (Nesting.outside.after front).advance c = Nesting.outside := by
        rw [outside]
        exact Nesting.advance_separator Nesting.outside_quoted isSeparator
      rcases later : cut boundaries Nesting.outside cs with ⟨within, behind⟩
      rw [cut_boundary found, later] at cuts
      obtain ⟨rfl, rfl⟩ := Prod.mk.inj cuts
      obtain ⟨uncut, written, laid⟩ := ih ((passed.trans stays) ▸ later)
      rw [whole, length] at uncut laid
      refine ⟨fun place s low high => absurd high (Nat.not_lt_of_le low), rfl, ?_⟩
      exact .cons (isBoundary_iff.mpr found) uncut (by simpa using written) laid

/-! ### The runs between the cuts -/

/-- The places of the runs behind cuts, the first of which stands at `place`. -/
def runsBehind : Nat → List (Separator × List Char) → List Run
  | _, [] => []
  | place, (_, run) :: rest =>
    ⟨place + 1, place + 1 + run.length⟩ :: runsBehind (place + 1 + run.length) rest

theorem Laid.stops {place : Nat} {rest : List (Separator × List Char)}
    (laid : Laid boundaries cs place rest) :
    place = cs.length ∨ ∃ s, IsBoundary boundaries cs place s := by
  cases laid with
  | nil => exact Or.inl rfl
  | cons found => exact Or.inr ⟨_, found⟩

theorem IsRun.stop_le_length {run : Run} (isRun : IsRun boundaries cs run) :
    run.stop ≤ cs.length := by
  rcases isRun.stops with whole | ⟨s, found⟩
  · exact Nat.le_of_eq whole
  · exact Nat.le_of_lt found.lt_length

/-- Only one run starts at a place. -/
theorem IsRun.eq_of_start {run run' : Run} (isRun : IsRun boundaries cs run)
    (isRun' : IsRun boundaries cs run') (same : run.start = run'.start) : run = run' := by
  have notBefore {run run' : Run} (isRun : IsRun boundaries cs run)
      (isRun' : IsRun boundaries cs run') (same : run.start = run'.start) :
      ¬ run.stop < run'.stop := by
    intro before
    have ordered := isRun.ordered
    rcases isRun.stops with whole | ⟨s, found⟩
    · have := isRun'.stop_le_length
      omega
    · exact isRun'.uncut run.stop s (by omega) before found
  have stops : run.stop = run'.stop := by
    have := notBefore isRun isRun' same
    have := notBefore isRun' isRun same.symm
    omega
  cases run
  cases run'
  simp_all

theorem Laid.isRun {place : Nat} {s : Separator} {run : List Char}
    {rest : List (Separator × List Char)} (laid : Laid boundaries cs place ((s, run) :: rest)) :
    IsRun boundaries cs ⟨place + 1, place + 1 + run.length⟩ := by
  cases laid with
  | cons found uncut written behind =>
    exact ⟨Nat.le_add_right _ _, fun later s' low high => uncut later s' low high,
      Or.inr ⟨place, s, rfl, found⟩, behind.stops⟩

theorem Laid.mem_runsBehind_iff {place : Nat} {rest : List (Separator × List Char)}
    (laid : Laid boundaries cs place rest) {run : Run} :
    run ∈ runsBehind place rest ↔ IsRun boundaries cs run ∧ place < run.start := by
  induction laid with
  | nil =>
    constructor
    · intro member
      cases member
    · intro given
      obtain ⟨isRun, behind⟩ := given
      have := isRun.ordered
      have := isRun.stop_le_length
      omega
  | @cons place s first rest found uncut written behind ih =>
    have firstRun := (Laid.cons found uncut written behind).isRun
    rw [runsBehind, List.mem_cons, ih]
    constructor
    · rintro (rfl | ⟨isRun, later⟩)
      · exact ⟨firstRun, Nat.lt_succ_self place⟩
      · exact ⟨isRun, by omega⟩
    · intro given
      obtain ⟨isRun, later⟩ := given
      by_cases same : run.start = place + 1
      · exact Or.inl (isRun.eq_of_start firstRun same)
      · right
        refine ⟨isRun, ?_⟩
        rcases isRun.starts with zero | ⟨before, s', start, cuts⟩
        · omega
        · by_contra within
          exact uncut before s' (by omega) (by omega) cuts

theorem Laid.pairwise_runsBehind {place : Nat} {rest : List (Separator × List Char)}
    (laid : Laid boundaries cs place rest) :
    (runsBehind place rest).Pairwise fun left right => left.stop < right.start := by
  induction laid with
  | nil => exact .nil
  | cons found uncut written behind ih =>
    exact .cons (fun run member => (behind.mem_runsBehind_iff.mp member).2) ih

theorem Laid.map_chars {place : Nat} {rest : List (Separator × List Char)}
    (laid : Laid boundaries cs place rest) :
    (runsBehind place rest).map (·.chars cs) = rest.map (·.2) := by
  induction laid with
  | nil => rfl
  | cons found uncut written behind ih =>
    rw [runsBehind, List.map_cons, List.map_cons, ih, Run.chars_of_take written]

/-- The runs of a text that is cut into a first run and the runs behind it. -/
theorem mem_runs_iff {first : List Char} {rest : List (Separator × List Char)}
    (uncut : ∀ place s, place < first.length → ¬ IsBoundary boundaries cs place s)
    (laid : Laid boundaries cs first.length rest) {run : Run} :
    run ∈ ⟨0, first.length⟩ :: runsBehind first.length rest ↔ IsRun boundaries cs run := by
  have firstRun : IsRun boundaries cs ⟨0, first.length⟩ :=
    ⟨Nat.zero_le _, fun place s _ high => uncut place s high, Or.inl rfl, laid.stops⟩
  rw [List.mem_cons, laid.mem_runsBehind_iff]
  constructor
  · rintro (rfl | ⟨isRun, -⟩)
    · exact firstRun
    · exact isRun
  · intro isRun
    rcases isRun.starts with zero | ⟨before, s, start, cuts⟩
    · exact Or.inl (isRun.eq_of_start firstRun zero)
    · right
      refine ⟨isRun, ?_⟩
      by_contra within
      exact uncut before s (by omega) cuts

/-! ### The separators between the runs -/

/-- Between a place and itself there is no boundary. -/
theorem SeparatorBetween.nothing (boundaries : List Separator) (cs : List Char) (place : Nat) :
    SeparatorBetween boundaries cs place place .space :=
  .space fun _ _ low high => absurd high (Nat.not_lt_of_le low)

/-- One more boundary behind those of a pending separator. -/
theorem SeparatorBetween.merge {start place stop : Nat} {pending : Option Separator} {s : Separator}
    (before : SeparatorBetween boundaries cs start place (pending.getD .space))
    (found : IsBoundary boundaries cs place s) (low : start ≤ place) (high : place < stop)
    (uncut : ∀ later s', place < later → later < stop → ¬ IsBoundary boundaries cs later s') :
    SeparatorBetween boundaries cs start stop (Separator.merge pending s) := by
  by_cases blank : s = .space
  · subst blank
    have kept : Separator.merge pending .space = pending.getD .space := by
      cases pending <;> rfl
    have spaceFrom {later : Nat} {s' : Separator} (behind : place ≤ later) (inside : later < stop)
        (boundary : IsBoundary boundaries cs later s') : s' = .space := by
      rcases Nat.eq_or_lt_of_le behind with rfl | beyond
      · exact boundary.unique found
      · exact (uncut later s' beyond inside boundary).elim
    rw [kept]
    generalize pending.getD .space = previous at before
    cases before with
    | space only =>
      refine .space fun later s' after inside boundary => ?_
      by_cases earlier : later < place
      · exact only later s' after earlier boundary
      · exact spaceFrom (by omega) inside boundary
    | delimiter after earlier boundary solid last =>
      refine .delimiter after (by omega) boundary solid fun later s' behind inside other => ?_
      by_cases within : later < place
      · exact last later s' behind within other
      · exact spaceFrom (by omega) inside other
  · have replaced : Separator.merge pending s = s := by
      unfold Separator.merge
      split
      · exact absurd rfl blank
      · rfl
    rw [replaced]
    exact .delimiter low high found blank fun later s' behind inside boundary =>
      (uncut later s' behind inside boundary).elim

theorem SeparatorBetween.unique {start stop : Nat} {s s' : Separator}
    (first : SeparatorBetween boundaries cs start stop s)
    (second : SeparatorBetween boundaries cs start stop s') : s = s' := by
  cases first with
  | space only =>
    cases second with
    | space => rfl
    | delimiter after before found solid => exact absurd (only _ _ after before found) solid
  | @delimiter place s after before found solid last =>
    cases second with
    | space only => exact absurd (only _ _ after before found) solid
    | @delimiter place' s' after' before' found' solid' last' =>
      rcases Nat.lt_trichotomy place place' with earlier | rfl | later
      · exact absurd (last _ _ earlier before' found') solid'
      · exact found.unique found'
      · exact absurd (last' _ _ later before found) solid

/-- Runs with the separators before them; the first is that of the boundaries from `place` on. -/
inductive Leads (boundaries : List Separator) (cs : List Char) :
    Nat → List Run → List Separator → Prop
  | nil {place : Nat} : Leads boundaries cs place [] []
  | cons {place : Nat} {run : Run} {s : Separator} {runs : List Run} {separators : List Separator}
      (between : SeparatorBetween boundaries cs place run.start s)
      (behind : Leads boundaries cs run.stop runs separators) :
      Leads boundaries cs place (run :: runs) (s :: separators)

theorem Leads.between {run : Run} {runs : List Run} {separators : List Separator}
    (leads : Leads boundaries cs run.stop runs separators) {i : Nat} {left right : Run}
    {s : Separator} (atLeft : (run :: runs)[i]? = some left)
    (atRight : (run :: runs)[i + 1]? = some right) (found : separators[i]? = some s) :
    SeparatorBetween boundaries cs left.stop right.start s := by
  induction i generalizing run runs separators with
  | zero =>
    cases atLeft
    cases leads with
    | nil => cases atRight
    | cons between behind =>
      cases atRight
      cases found
      exact between
  | succ i ih =>
    cases leads with
    | nil => cases atRight
    | cons between behind => exact ih behind atLeft atRight found

/-- Before the first run nothing is asked for. -/
theorem Leads.between_tail {place : Nat} {runs : List Run} {separators : List Separator}
    (leads : Leads boundaries cs place runs separators) {i : Nat} {left right : Run}
    {s : Separator} (atLeft : runs[i]? = some left) (atRight : runs[i + 1]? = some right)
    (found : separators.tail[i]? = some s) :
    SeparatorBetween boundaries cs left.stop right.start s := by
  cases leads with
  | nil => cases atLeft
  | cons _ behind => exact behind.between atLeft atRight found

def fragmentRuns (cs : List Char) (runs : List Run) : List Run :=
  runs.filter fun run => trimChars (run.chars cs) ≠ []

theorem mem_fragmentRuns {runs : List Run} {run : Run} :
    run ∈ fragmentRuns cs runs ↔ run ∈ runs ∧ trimChars (run.chars cs) ≠ [] := by
  simp [fragmentRuns]

theorem fragmentRuns_of_blank {run : Run} (blank : trimChars (run.chars cs) = [])
    (runs : List Run) : fragmentRuns cs (run :: runs) = fragmentRuns cs runs := by
  simp [fragmentRuns, blank]

theorem fragmentRuns_of_solid {run : Run} (solid : trimChars (run.chars cs) ≠ [])
    (runs : List Run) : fragmentRuns cs (run :: runs) = run :: fragmentRuns cs runs := by
  simp [fragmentRuns, solid]

theorem map_fragmentRuns (cs : List Char) (runs : List Run) :
    (fragmentRuns cs runs).map (fun run => trimChars (run.chars cs)) =
      solidRuns (runs.map (·.chars cs)) := by
  rw [fragmentRuns, solidRuns, List.map_map, List.filter_map]
  rfl

/-- The separators of the fragments behind a place, where `pending` is the separator of the boundaries
between the last fragment, which ends at `start`, and that place. -/
theorem Laid.leads {place : Nat} {rest : List (Separator × List Char)}
    (laid : Laid boundaries cs place rest) {start : Nat} {pending : Option Separator}
    (low : start ≤ place)
    (before : SeparatorBetween boundaries cs start place (pending.getD .space)) :
    Leads boundaries cs start (fragmentRuns cs (runsBehind place rest))
      ((follow pending rest).map (·.1)) := by
  induction laid generalizing start pending with
  | nil => exact .nil
  | @cons place s run rest found uncut written behind ih =>
    have chars := Run.chars_of_take written
    rw [runsBehind]
    by_cases blank : trimChars run = []
    · rw [follow_blank blank, fragmentRuns_of_blank (chars.symm ▸ blank)]
      exact ih (by omega) (before.merge found low (by omega) uncut)
    · rw [follow_solid blank, fragmentRuns_of_solid (chars.symm ▸ blank), List.map_cons]
      refine .cons (before.merge found low (Nat.lt_succ_self place) ?_) ?_
      · intro later s' above below
        exact absurd below (Nat.not_lt_of_le above)
      · exact ih (Nat.le_refl _) (.nothing boundaries cs _)

/-! ### Fragments of a value -/

/-- The fragments of a value come from its runs. -/
theorem exists_comesFrom_split (boundaries : List Separator) (value : String) :
    ∃ runs, ComesFrom boundaries value.toList (split boundaries value) runs := by
  rcases cuts : cut boundaries Nesting.outside value.toList with ⟨first, rest⟩
  have whole : split boundaries value = collect first rest := by
    rw [split, cuts]
  obtain ⟨uncut, written, laid⟩ := @laid_of_cut boundaries [] value.toList first rest cuts
  simp only [List.nil_append, List.length_nil, Nat.zero_add, Nat.zero_le, true_imp_iff] at uncut laid
  have firstChars : (Run.mk 0 (0 + first.length)).chars value.toList = first :=
    Run.chars_of_take (by rwa [List.drop_zero])
  rw [Nat.zero_add] at firstChars
  refine ⟨fragmentRuns value.toList (⟨0, first.length⟩ :: runsBehind first.length rest), ?_⟩
  constructor
  case sorted =>
    refine List.Pairwise.filter _ (.cons ?_ laid.pairwise_runsBehind)
    exact fun run member => (laid.mem_runsBehind_iff.mp member).2
  case complete =>
    intro run
    rw [mem_fragmentRuns, mem_runs_iff uncut laid]
  case texts =>
    have chars : (⟨0, first.length⟩ :: runsBehind first.length rest).map (·.chars value.toList) =
        first :: rest.map (·.2) := by
      rw [List.map_cons, firstChars, laid.map_chars]
    have texts := congrArg (List.map String.ofList) (collect_texts first rest)
    rw [← chars, ← map_fragmentRuns, ← whole, List.map_map, List.map_map] at texts
    have restored : (split boundaries value).texts.map (String.ofList ∘ String.toList) =
        (split boundaries value).texts := by simp
    exact restored.symm.trans texts
  case count => exact length_split_separators boundaries value
  case separators =>
    have leads : Leads boundaries value.toList first.length
        (fragmentRuns value.toList (runsBehind first.length rest))
        ((follow none rest).map (·.1)) :=
      laid.leads (Nat.le_refl _) (.nothing boundaries _ _)
    by_cases blank : trimChars first = []
    · have separators : (split boundaries value).separators = ((follow none rest).map (·.1)).tail := by
        simp [whole, collect, blank]
      rw [separators, fragmentRuns_of_blank (firstChars.symm ▸ blank)]
      exact fun i left right s => leads.between_tail
    · have separators : (split boundaries value).separators = (follow none rest).map (·.1) := by
        rw [whole, collect]
        split
        · next none => exact absurd none blank
        · rfl
      rw [separators, fragmentRuns_of_solid (firstChars.symm ▸ blank)]
      exact fun i left right s => leads.between

/-- A text has one list of runs that its fragments come from. -/
theorem ComesFrom.runs_unique {fragments fragments' : Fragments} {runs runs' : List Run}
    (comes : ComesFrom boundaries cs fragments runs)
    (comes' : ComesFrom boundaries cs fragments' runs') : runs = runs' := by
  have nodup {fragments : Fragments} {runs : List Run}
      (comes : ComesFrom boundaries cs fragments runs) : runs.Nodup := by
    refine comes.sorted.imp_of_mem fun {left right} member _ before same => ?_
    have ordered := ((comes.complete left).mp member).1.ordered
    rw [← same] at before
    omega
  have same : runs.Perm runs' := (List.perm_ext_iff_of_nodup (nodup comes) (nodup comes')).mpr
    fun run => (comes.complete run).trans (comes'.complete run).symm
  refine same.eq_of_pairwise ?_ comes.sorted comes'.sorted
  intro left right member member' before after
  have := ((comes.complete left).mp member).1.ordered
  have := ((comes'.complete right).mp member').1.ordered
  omega

/-- A text has only one list of fragments with separators. -/
theorem ComesFrom.unique {fragments fragments' : Fragments} {runs runs' : List Run}
    (comes : ComesFrom boundaries cs fragments runs)
    (comes' : ComesFrom boundaries cs fragments' runs') : fragments = fragments' := by
  obtain rfl := comes.runs_unique comes'
  have texts : fragments.texts = fragments'.texts := comes.texts.trans comes'.texts.symm
  have length : fragments.texts.length = runs.length := by rw [comes.texts, List.length_map]
  have separators : fragments.separators = fragments'.separators := by
    apply List.ext_getElem
    · rw [comes.count, comes'.count, texts]
    · intro i inside inside'
      have between : i + 1 < runs.length := by
        have count := comes.count
        omega
      have atLeft : runs[i]? = some runs[i] := List.getElem?_eq_getElem _
      have atRight : runs[i + 1]? = some runs[i + 1] := List.getElem?_eq_getElem between
      exact (comes.separators i _ _ _ atLeft atRight (List.getElem?_eq_getElem inside)).unique
        (comes'.separators i _ _ _ atLeft atRight (List.getElem?_eq_getElem inside'))
  cases fragments
  cases fragments'
  simp_all

/-- Splitting a value is what its runs say: the fragments are the runs that are not blank, trimmed and
in order, with the separators of the boundaries between them. -/
theorem split_eq_iff_comesFrom (boundaries : List Separator) (value : String)
    (fragments : Fragments) :
    split boundaries value = fragments ↔
      ∃ runs, ComesFrom boundaries value.toList fragments runs := by
  obtain ⟨runs, comes⟩ := exists_comesFrom_split boundaries value
  constructor
  · intro same
    exact ⟨runs, same ▸ comes⟩
  · intro given
    obtain ⟨runs', comes'⟩ := given
    exact comes.unique comes'

end Fragments

end ValueGrammar
