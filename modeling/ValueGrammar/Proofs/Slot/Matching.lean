import ValueGrammar.Proofs.Pointwise
import ValueGrammar.Slot.Match

/-!
What it takes to match. A place takes a text if the text is classified and the place accepts it; a
variant admits texts if its first places take them one by one. A draft of texts fits the variants
that admit its texts and, where the separators are known, have them.
-/
namespace ValueGrammar

namespace Context

variable {context : Context}

/-! ### Classification -/

/-- Whether a text may stand for the token of a key. -/
def StandsFor (context : Context) (text key : String) : Prop :=
  ∃ category ∈ context.categories, key ∈ category.classify context.registry (Text.trim text)

theorem mem_accepting {fragment key : String} :
    (∃ entry ∈ context.accepting fragment, key ∈ entry.2) ↔
      ∃ category ∈ context.categories, key ∈ category.classify context.registry fragment := by
  constructor
  · intro given
    obtain ⟨entry, accepted, member⟩ := given
    obtain ⟨inside, -⟩ := List.mem_filter.mp accepted
    obtain ⟨category, known, rfl⟩ := List.mem_map.mp inside
    exact ⟨category, known, member⟩
  · intro given
    obtain ⟨category, known, member⟩ := given
    refine ⟨(category.key, category.classify context.registry fragment),
      List.mem_filter.mpr ⟨List.mem_map.mpr ⟨category, known, rfl⟩, ?_⟩, member⟩
    cases tokens : category.classify context.registry fragment with
    | nil =>
      rw [tokens] at member
      cases member
    | cons token tokens => rfl

/-- The classification of a text lists the tokens that it may stand for. -/
theorem mem_tokens {text key : String} {classification : Classification}
    (classified : context.classify text = .ok classification) :
    key ∈ classification.tokens ↔ context.StandsFor text key := by
  unfold classify at classified
  dsimp only at classified
  split at classified
  · next category token tokens others accepted =>
    cases classified
    rw [List.mem_eraseDups, List.mem_append, List.mem_flatMap, StandsFor, ← mem_accepting, accepted]
    simp
  · cases classified

/-- A text is classified if it may stand for some token. -/
theorem exists_classify {text key : String} (stands : context.StandsFor text key) :
    ∃ classification, context.classify text = .ok classification := by
  obtain ⟨entry, accepted, member⟩ := mem_accepting.mpr stands
  cases found : context.classify text with
  | ok classification => exact ⟨classification, rfl⟩
  | error e =>
    unfold classify at found
    dsimp only at found
    split at found
    · cases found
    · next refused =>
      cases entries : context.accepting (Text.trim text) with
      | nil =>
        rw [entries] at accepted
        cases accepted
      | cons first others =>
        obtain ⟨category, tokens⟩ := first
        cases tokens with
        | cons token tokens => exact absurd entries (refused category token tokens others)
        | nil =>
          have kept : (category, []) ∈ context.accepting (Text.trim text) := by
            rw [entries]
            exact List.mem_cons_self
          have nonempty := (List.mem_filter.mp kept).2
          cases nonempty

/-- Whether a text may stand for some token. -/
def Knows (context : Context) (text : String) : Prop :=
  ∃ key, context.StandsFor text key

theorem knows_of_classify {text : String} {classification : Classification}
    (classified : context.classify text = .ok classification) : context.Knows text := by
  refine ⟨classification.best, (mem_tokens classified).mp ?_⟩
  unfold classify at classified
  dsimp only at classified
  split at classified
  · cases classified
    simp [List.mem_eraseDups]
  · cases classified

/-- A text is refused if it may stand for no token. -/
theorem classify_eq_error {text : String} {e : Error} :
    context.classify text = .error e ↔
      ¬ context.Knows text ∧ e = .unclassifiable (Text.trim text) := by
  constructor
  · intro refused
    constructor
    · intro knows
      obtain ⟨key, stands⟩ := knows
      obtain ⟨classification, classified⟩ := exists_classify stands
      rw [refused] at classified
      cases classified
    · unfold classify at refused
      dsimp only at refused
      split at refused
      · cases refused
      · cases refused
        rfl
  · intro given
    obtain ⟨unknown, rfl⟩ := given
    cases found : context.classify text with
    | ok classification => exact absurd (knows_of_classify found) unknown
    | error e =>
      unfold classify at found
      dsimp only at found
      split at found
      · cases found
      · cases found
        rfl

/-! ### Places and variants -/

/-- Whether a place takes a text that is typed into it. -/
def Takes (context : Context) (place : Place) (text : String) : Prop :=
  context.StandsFor text place.key ∧
    ∀ range ∈ place.range?, ∀ x ∈ context.magnitude? place.key text, range.contains x = true

/-- A variant whose first places take the texts one by one. -/
def Admits (context : Context) (variant : Variant) (texts : List String) : Prop :=
  ∃ front, front <+: variant.places ∧ List.Forall₂ context.Takes front texts

theorem accepts_iff {place : Place} {text : String} {classification : Classification}
    (classified : context.classify text = .ok classification) :
    context.accepts place ⟨text, classification⟩ = true ↔ context.Takes place text := by
  unfold accepts Takes
  rw [Bool.and_eq_true, List.contains_iff_mem, mem_tokens classified]
  refine and_congr_right fun _ => ?_
  cases place.range? with
  | none => simp
  | some range =>
    cases context.magnitude? place.key text with
    | none => simp
    | some x => simp

theorem Admits.length_le {variant : Variant} {texts : List String}
    (admits : context.Admits variant texts) : texts.length ≤ variant.length := by
  obtain ⟨front, initial, taken⟩ := admits
  rw [← taken.length_eq]
  exact initial.length_le

/-- A variant that admits texts admits the first ones among them. -/
theorem Admits.take {variant : Variant} {texts : List String}
    (admits : context.Admits variant texts) (count : Nat) :
    context.Admits variant (texts.take count) := by
  obtain ⟨front, initial, taken⟩ := admits
  exact ⟨front.take count, (List.take_prefix count front).trans initial,
    List.forall₂_take count taken⟩

theorem Admits.takes {variant : Variant} {texts : List String}
    (admits : context.Admits variant texts) :
    ∀ text ∈ texts, ∃ place ∈ variant.places, context.Takes place text := by
  intro text member
  obtain ⟨front, initial, taken⟩ := admits
  obtain ⟨place, inside, takes⟩ := exists_mem_of_forall₂ taken.flip member
  exact ⟨place, initial.subset inside, takes⟩

/-- Further texts are admitted if the places behind those taken so far take them. -/
theorem Admits.append {variant : Variant} {texts more : List String}
    (admits : context.Admits variant texts)
    (taken : List.Forall₂ context.Takes ((variant.places.drop texts.length).take more.length) more) :
    context.Admits variant (texts ++ more) := by
  obtain ⟨front, initial, takes⟩ := admits
  have start : front = variant.places.take texts.length := by
    rw [← takes.length_eq]
    exact List.prefix_iff_eq_take.mp initial
  refine ⟨variant.places.take (texts.length + more.length), List.take_prefix _ _, ?_⟩
  rw [List.take_add, ← start]
  exact List.rel_append takes taken

/-! ### Drafts -/

theorem draft_eq_ok {texts : List String} {separators? : Option (List Separator)} {draft : Draft} :
    context.draft texts separators? = .ok draft ↔ draft.separators? = separators? ∧
      List.Forall₂ (fun text fragment => fragment.text = text ∧
        context.classify text = .ok fragment.classification) texts draft.fragments := by
  have visit {text : String} {fragment : DraftFragment} :
      (context.classify text).map (DraftFragment.mk text) = .ok fragment ↔
        fragment.text = text ∧ context.classify text = .ok fragment.classification := by
    cases context.classify text with
    | error e =>
      constructor
      · intro made
        cases made
      · intro given
        cases given.2
    | ok classification =>
      constructor
      · intro made
        cases made
        exact ⟨rfl, rfl⟩
      · intro given
        obtain ⟨text', classification'⟩ := fragment
        obtain ⟨rfl, same⟩ := given
        cases same
        rfl
  unfold Context.draft
  rw [bind_eq_ok]
  simp only [mapM_eq_ok, visit]
  constructor
  · intro given
    obtain ⟨fragments, each, made⟩ := given
    cases made
    exact ⟨rfl, each⟩
  · intro given
    obtain ⟨rfl, each⟩ := given
    exact ⟨_, each, rfl⟩

/-- Texts make no draft if one of them may stand for no token; the first such text is to blame. -/
theorem draft_eq_error {texts : List String} {separators? : Option (List Separator)} {e : Error} :
    context.draft texts separators? = .error e ↔
      ∃ text, IsFirst (fun text => ¬ context.Knows text) texts text ∧
        e = .unclassifiable (Text.trim text) := by
  have visit {text : String} {e : Error} :
      (context.classify text).map (DraftFragment.mk text) = .error e ↔
        ¬ context.Knows text ∧ e = .unclassifiable (Text.trim text) := by
    rw [← classify_eq_error]
    cases context.classify text with
    | error e' => simp [Except.map]
    | ok classification => simp [Except.map]
  have refused : context.draft texts separators? = .error e ↔
      texts.mapM (fun text => (context.classify text).map (DraftFragment.mk text)) = .error e := by
    unfold Context.draft
    rw [bind_eq_error]
    constructor
    · intro given
      rcases given with here | ⟨fragments, -, made⟩
      · exact here
      · cases made
    · exact Or.inl
  rw [refused, mapM_eq_error]
  simp only [visit, exists_and_left, exists_eq, and_true]
  refine exists_congr fun text => and_congr_right fun first => ?_
  exact ⟨fun given => given.2, fun same => ⟨first.1, same⟩⟩

theorem exists_draft_iff {texts : List String} {separators? : Option (List Separator)} :
    (∃ draft, context.draft texts separators? = .ok draft) ↔
      ∀ text ∈ texts, context.Knows text := by
  constructor
  · intro given text member
    obtain ⟨draft, drafted⟩ := given
    obtain ⟨fragment, -, -, classified⟩ :=
      exists_mem_of_forall₂ (draft_eq_ok.mp drafted).2 member
    exact knows_of_classify classified
  · intro known
    cases drafted : context.draft texts separators? with
    | ok draft => exact ⟨draft, rfl⟩
    | error e =>
      obtain ⟨text, first, -⟩ := draft_eq_error.mp drafted
      exact absurd (known text first.mem) first.1

theorem texts_of_draft {texts : List String} {separators? : Option (List Separator)} {draft : Draft}
    (drafted : context.draft texts separators? = .ok draft) : draft.texts = texts := by
  have each := (draft_eq_ok.mp drafted).2
  unfold Draft.texts
  rw [← List.forall₂_eq_eq_eq, List.forall₂_map_left_iff]
  exact (each.imp fun _ _ given => given.1).flip

theorem length_of_draft {texts : List String} {separators? : Option (List Separator)}
    {draft : Draft} (drafted : context.draft texts separators? = .ok draft) :
    draft.length = texts.length := by
  rw [← texts_of_draft drafted, Draft.texts, List.length_map]
  rfl

/-- Texts that a variant admits make a draft. -/
theorem Admits.exists_draft {variant : Variant} {texts : List String}
    (admits : context.Admits variant texts) (separators? : Option (List Separator)) :
    ∃ draft, context.draft texts separators? = .ok draft := by
  apply exists_draft_iff.mpr
  intro text member
  obtain ⟨place, -, stands, -⟩ := admits.takes text member
  exact ⟨place.key, stands⟩

/-- Places accept the fragments of a draft if the first ones among them take its texts. -/
theorem all_accepts_iff (places : List Place) {texts : List String} {fragments : List DraftFragment}
    (each : List.Forall₂ (fun text fragment => fragment.text = text ∧
      context.classify text = .ok fragment.classification) texts fragments) :
    (fragments.length ≤ places.length ∧
      (places.zip fragments).all fun pair => context.accepts pair.1 pair.2) ↔
      ∃ front, front <+: places ∧ List.Forall₂ context.Takes front texts := by
  induction each generalizing places with
  | nil => exact ⟨fun _ => ⟨[], List.nil_prefix, .nil⟩, fun _ => ⟨Nat.zero_le _, by simp⟩⟩
  | @cons text fragment texts fragments here later ih =>
    obtain ⟨text', classification⟩ := fragment
    obtain ⟨rfl, classified⟩ := here
    cases places with
    | nil =>
      constructor
      · intro given
        simp at given
      · intro given
        obtain ⟨front, initial, taken⟩ := given
        rw [List.prefix_nil.mp initial] at taken
        cases taken
    | cons place places =>
      have step := ih places
      simp only [List.zip_cons_cons, List.all_cons, Bool.and_eq_true, List.length_cons,
        Nat.add_le_add_iff_right, accepts_iff classified]
      constructor
      · intro given
        obtain ⟨short, takes, rest⟩ := given
        obtain ⟨front, initial, taken⟩ := step.mp ⟨short, rest⟩
        exact ⟨place :: front, List.cons_prefix_cons.mpr ⟨rfl, initial⟩, .cons takes taken⟩
      · intro given
        obtain ⟨front, initial, taken⟩ := given
        cases taken with
        | @cons first _ front _ takes taken =>
          obtain ⟨rfl, initialLater⟩ := List.cons_prefix_cons.mp initial
          obtain ⟨short, rest⟩ := step.mpr ⟨front, initialLater, taken⟩
          exact ⟨short, takes, rest⟩

/-- A draft fits a variant that admits its texts and has its separators. -/
theorem fits_iff {texts : List String} {separators? : Option (List Separator)} {draft : Draft}
    (drafted : context.draft texts separators? = .ok draft) (variant : Variant) :
    context.fits draft variant = true ↔
      context.Admits variant texts ∧ variant.sameSeparators draft = true := by
  obtain ⟨-, each⟩ := draft_eq_ok.mp drafted
  unfold fits Admits
  rw [← all_accepts_iff variant.places each, Bool.and_eq_true, Bool.and_eq_true,
    decide_eq_true_eq]
  exact and_right_comm

/-! ### Matches -/

/-- A draft is matched with the first variant that it fills, or else with the first longer one that it
fits. -/
theorem match?_eq_some {variants : List Variant} {draft : Draft} {found : Match} :
    context.match? variants draft = some found ↔
      (found.complete = true ∧ IsFirst
        (fun v => v.length = draft.length ∧ context.fits draft v = true) variants found.variant) ∨
      (found.complete = false ∧
        (∀ v ∈ variants, v.length = draft.length → context.fits draft v ≠ true) ∧ IsFirst
          (fun v => draft.length < v.length ∧ context.fits draft v = true) variants found.variant) := by
  have filled {v : Variant} : (v.length == draft.length && context.fits draft v) = true ↔
      v.length = draft.length ∧ context.fits draft v = true := by
    rw [Bool.and_eq_true, beq_iff_eq]
  have begun {v : Variant} : (decide (draft.length < v.length) && context.fits draft v) = true ↔
      draft.length < v.length ∧ context.fits draft v = true := by
    rw [Bool.and_eq_true, decide_eq_true_eq]
  obtain ⟨chosen, complete⟩ := found
  unfold match?
  split
  · next variant given =>
    have first := find?_eq_some_iff_isFirst.mp given
    have member := first.mem
    rw [isFirst_congr fun v _ => filled] at first
    constructor
    · intro made
      cases made
      exact Or.inl ⟨rfl, first⟩
    · intro described
      rcases described with ⟨rfl, other⟩ | ⟨-, none, -⟩
      · rw [← isFirst_congr fun v _ => filled, ← find?_eq_some_iff_isFirst, given] at other
        cases other
        rfl
      · exact absurd first.1.2 (none variant member first.1.1)
  · next missing =>
    have none : ∀ v ∈ variants, v.length = draft.length → context.fits draft v ≠ true :=
      fun v member same fits => List.find?_eq_none.mp missing v member (filled.mpr ⟨same, fits⟩)
    rw [Option.map_eq_some_iff]
    constructor
    · intro made
      obtain ⟨variant, given, same⟩ := made
      cases same
      exact Or.inr ⟨rfl, none, (isFirst_congr fun v _ => begun).mp
        (find?_eq_some_iff_isFirst.mp given)⟩
    · intro described
      rcases described with ⟨-, first⟩ | ⟨rfl, -, first⟩
      · exact absurd first.1.2 (none chosen first.mem first.1.1)
      · exact ⟨chosen, find?_eq_some_iff_isFirst.mpr ((isFirst_congr fun v _ => begun).mpr first), rfl⟩

theorem length_le_of_fits {draft : Draft} {variant : Variant}
    (fits : context.fits draft variant = true) : draft.length ≤ variant.length := by
  unfold Context.fits at fits
  simp only [Bool.and_eq_true, decide_eq_true_eq] at fits
  exact fits.1.1

/-- A draft is matched unless it fits no variant. -/
theorem match?_eq_none {variants : List Variant} {draft : Draft} :
    context.match? variants draft = none ↔ ∀ v ∈ variants, context.fits draft v ≠ true := by
  unfold match?
  split
  · next variant given =>
    constructor
    · intro made
      cases made
    · intro none
      have passed := List.find?_some given
      rw [Bool.and_eq_true] at passed
      exact absurd passed.2 (none variant (List.mem_of_find?_eq_some given))
  · next missing =>
    rw [List.find?_eq_none] at missing
    rw [Option.map_eq_none_iff, List.find?_eq_none]
    constructor
    · intro shorter v member fits
      rcases Nat.eq_or_lt_of_le (length_le_of_fits fits) with same | longer
      · exact missing v member (by simp [same, fits])
      · exact shorter v member (by simp [longer, fits])
    · intro none v member passed
      rw [Bool.and_eq_true] at passed
      exact none v member passed.2

/-- A match is a variant that the draft fits, and complete if the draft fills it. -/
theorem of_match? {variants : List Variant} {draft : Draft} {found : Match}
    (matched : context.match? variants draft = some found) :
    found.variant ∈ variants ∧ context.fits draft found.variant = true ∧
      (found.complete = true ↔ draft.length = found.variant.length) := by
  rcases match?_eq_some.mp matched with ⟨complete, first⟩ | ⟨incomplete, -, first⟩
  · exact ⟨first.mem, first.1.2, by simp [complete, first.1.1]⟩
  · exact ⟨first.mem, first.1.2, by simp [incomplete, Nat.ne_of_lt first.1.1]⟩

/-- A draft is matched if it fits some variant. -/
theorem exists_match? {variants : List Variant} {draft : Draft} {variant : Variant}
    (member : variant ∈ variants) (fits : context.fits draft variant = true) :
    ∃ found, context.match? variants draft = some found := by
  cases matched : context.match? variants draft with
  | some found => exact ⟨found, rfl⟩
  | none => exact absurd fits (match?_eq_none.mp matched variant member)

theorem matching_eq_ok {variants : List Variant} {draft : Draft} {found : Match} :
    context.matching variants draft = .ok found ↔ context.match? variants draft = some found := by
  unfold matching
  cases context.match? variants draft with
  | some other => simp
  | none => simp

end Context

end ValueGrammar
