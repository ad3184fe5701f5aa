import Mathlib.Data.List.Chain
import ValueGrammar.Proofs.Tree.Delimited

/-!
Which runs of lexemes have a tree. The reader cuts a run at one combinator after another and every
bracketed run in it again; whether it succeeds is seen from the numbers of brackets and from the
neighbours of each delimiter and each multiplier.
-/
namespace ValueGrammar

namespace Lexeme

def EndsOperand (x : Lexeme) : Prop :=
  x ≠ .opening ∧ x ∉ Tree.delimiters

/-- Whether an operand may start with a lexeme, if it is no multiplier. -/
def StartsOperand (x : Lexeme) : Prop :=
  x ≠ .closing ∧ x ∉ Tree.delimiters

instance (x : Lexeme) : Decidable x.EndsOperand :=
  inferInstanceAs (Decidable (_ ∧ _))

instance (x : Lexeme) : Decidable x.StartsOperand :=
  inferInstanceAs (Decidable (_ ∧ _))

end Lexeme

namespace Tree

/-- Runs whose brackets pair up, with an operand on both sides of every delimiter and in front of
every multiplier. -/
structure WellFormed (items : List Lexeme) : Prop where
  /-- No prefix closes more brackets than it opens. -/
  closed : ∀ front, front <+: items → front.count .closing ≤ front.count .opening
  /-- As many brackets are closed as opened. -/
  paired : items.count .closing = items.count .opening
  delimited : ∀ front delimiter back, delimiter ∈ delimiters →
    items = front ++ delimiter :: back →
    (∃ x ∈ front.getLast?, x.EndsOperand) ∧ ∃ x ∈ back.head?, x.StartsOperand
  multiplied : ∀ front m back, items = front ++ .multiplier m :: back →
    ∃ x ∈ front.getLast?, x.EndsOperand

/-! ### Brackets -/

/-- A lexeme changes the number of open brackets by what it adds to the numbers of brackets. -/
theorem depthAfter_count {depth : Nat} {x : Lexeme} (closes : x = .closing → depth ≠ 0)
    (rest : List Lexeme) :
    depthAfter depth x + rest.count .opening + (x :: rest).count .closing =
      depth + (x :: rest).count .opening + rest.count .closing := by
  cases x with
  | opening =>
    simp only [depthAfter, List.count_cons_self, List.count_cons_of_ne (by decide :
      Lexeme.opening ≠ .closing)]
    omega
  | closing =>
    have := closes rfl
    simp only [depthAfter, List.count_cons_self, List.count_cons_of_ne (by decide :
      Lexeme.closing ≠ .opening)]
    omega
  | _ => simp [depthAfter]

/-- Brackets pair up if no prefix closes more than it opens and all are closed at the end. -/
theorem isBalanced_iff_count (depth : Nat) (items : List Lexeme) :
    isBalanced depth items = true ↔
      (∀ front, front <+: items → front.count .closing ≤ depth + front.count .opening) ∧
        items.count .closing = depth + items.count .opening := by
  induction items generalizing depth with
  | nil =>
    simp only [isBalanced, beq_iff_eq, List.prefix_nil, forall_eq, List.count_nil]
    omega
  | cons x rest ih =>
    rw [isBalanced_cons, ih]
    constructor
    · intro given
      obtain ⟨closes, prefixes, total⟩ := given
      refine ⟨fun front within => ?_, ?_⟩
      · rcases List.prefix_cons_iff.mp within with rfl | ⟨behind, rfl, later⟩
        · simp
        · have step := depthAfter_count closes behind
          have := prefixes behind later
          omega
      · have step := depthAfter_count closes rest
        omega
    · intro given
      obtain ⟨prefixes, total⟩ := given
      have closes : x = .closing → depth ≠ 0 := by
        rintro rfl
        have := prefixes [.closing] (by simp)
        simp at this
        omega
      refine ⟨closes, fun front within => ?_, ?_⟩
      · have step := depthAfter_count closes front
        have := prefixes (x :: front) (List.cons_prefix_cons.mpr ⟨rfl, within⟩)
        omega
      · have step := depthAfter_count closes rest
        omega

theorem head?_ne_closing {items : List Lexeme} (balanced : isBalanced 0 items = true) :
    ∀ y ∈ items.head?, y ≠ .closing := by
  rintro y first rfl
  cases items with
  | nil => cases first
  | cons x rest =>
    cases first
    exact ((isBalanced_cons ..).mp balanced).1 rfl rfl

theorem getLast?_ne_opening {items : List Lexeme} (balanced : isBalanced 0 items = true) :
    ∀ x ∈ items.getLast?, x ≠ .opening := by
  rintro x last rfl
  obtain ⟨init, rfl⟩ := List.getLast?_eq_some_iff.mp last
  obtain ⟨prefixes, total⟩ := (isBalanced_iff_count ..).mp balanced
  have := prefixes init (List.prefix_append ..)
  simp at this total
  omega

/-! ### Neighbours -/

def MayPrecede (x y : Lexeme) : Prop :=
  (y ∈ delimiters ∨ (∃ m, y = .multiplier m) → x.EndsOperand) ∧ (x ∈ delimiters → y.StartsOperand)

/-- Whether all neighbours in a run may stand so, and its ends may stand next to brackets. -/
@[mk_iff]
structure IsLinked (items : List Lexeme) : Prop where
  inside : items.IsChain MayPrecede
  first : ∀ y ∈ items.head?, MayPrecede .opening y
  last : ∀ x ∈ items.getLast?, MayPrecede x .closing

instance (x : Lexeme) : Decidable (∃ m, x = .multiplier m) :=
  decidable_of_iff (startsMultiplier [x] = true) (by cases x <;> simp [startsMultiplier])

instance : DecidableRel MayPrecede := fun _ _ =>
  inferInstanceAs (Decidable (_ ∧ _))

instance (items : List Lexeme) : Decidable (IsLinked items) :=
  decidable_of_iff _ (isLinked_iff items).symm

theorem mayPrecede_of_endsOperand {x : Lexeme} (ends : x.EndsOperand) (y : Lexeme) :
    MayPrecede x y :=
  ⟨fun _ => ends, fun delimiter => absurd delimiter ends.2⟩

theorem opening_mayPrecede {y : Lexeme} :
    MayPrecede .opening y ↔ y ∉ delimiters ∧ ∀ m, y ≠ .multiplier m := by
  have notDelimiter : Lexeme.opening ∉ delimiters := by decide
  simp [MayPrecede, Lexeme.EndsOperand, notDelimiter, not_or]

theorem mayPrecede_closing {x : Lexeme} : MayPrecede x .closing ↔ x ∉ delimiters := by
  have notDelimiter : Lexeme.closing ∉ delimiters := by decide
  simp [MayPrecede, Lexeme.StartsOperand, notDelimiter]

theorem delimiter_mayPrecede {delimiter y : Lexeme} (known : delimiter ∈ delimiters) :
    MayPrecede delimiter y ↔ y ≠ .closing ∧ MayPrecede .opening y := by
  rw [opening_mayPrecede]
  simp only [MayPrecede, Lexeme.EndsOperand, Lexeme.StartsOperand, known, not_true_eq_false,
    and_false, imp_false, not_or, not_exists, forall_const]
  tauto

theorem mayPrecede_delimiter {delimiter x : Lexeme} (known : delimiter ∈ delimiters) :
    MayPrecede x delimiter ↔ x ≠ .opening ∧ MayPrecede x .closing := by
  rw [mayPrecede_closing]
  simp only [MayPrecede, Lexeme.EndsOperand, Lexeme.StartsOperand, known, not_true_eq_false,
    and_false, imp_false, true_or, forall_const]
  tauto

/-- The neighbours of every delimiter and every multiplier decide whether a run is linked. -/
theorem isLinked_of_wellFormed {items : List Lexeme} (well : WellFormed items) :
    IsLinked items := by
  constructor
  · rw [List.isChain_iff_forall_rel_of_append_cons_cons]
    intro x y front back split
    have split' : items = (front ++ [x]) ++ y :: back := by simp [split]
    constructor
    · intro kind
      have before : ∃ z ∈ (front ++ [x]).getLast?, z.EndsOperand := by
        rcases kind with known | ⟨m, rfl⟩
        · exact (well.delimited _ y back known split').1
        · exact well.multiplied _ m back split'
      simpa using before
    · intro known
      simpa using (well.delimited front x (y :: back) known split).2
  · intro y first
    cases items with
    | nil => cases first
    | cons z rest =>
      cases first
      rw [opening_mayPrecede]
      constructor
      · intro known
        simpa using (well.delimited [] y rest known rfl).1
      · rintro m rfl
        simpa using well.multiplied [] m rest rfl
  · intro x last
    obtain ⟨init, rfl⟩ := List.getLast?_eq_some_iff.mp last
    rw [mayPrecede_closing]
    intro known
    simpa using (well.delimited init x [] known rfl).2

theorem exists_endsOperand {front back : List Lexeme} {y : Lexeme}
    (linked : IsLinked (front ++ y :: back)) (kind : y ∈ delimiters ∨ ∃ m, y = .multiplier m) :
    ∃ x ∈ front.getLast?, x.EndsOperand := by
  rcases List.eq_nil_or_concat front with rfl | ⟨init, x, rfl⟩
  · obtain ⟨notDelimiter, notMultiplier⟩ := opening_mayPrecede.mp (linked.first y rfl)
    rcases kind with known | ⟨m, rfl⟩
    · exact absurd known notDelimiter
    · exact absurd rfl (notMultiplier m)
  · have chain := List.isChain_iff_forall_rel_of_append_cons_cons.mp linked.inside
    exact ⟨x, by simp, (@chain x y init back (by simp)).1 kind⟩

theorem exists_startsOperand {front back : List Lexeme} {x : Lexeme}
    (linked : IsLinked (front ++ x :: back)) (known : x ∈ delimiters) :
    ∃ y ∈ back.head?, y.StartsOperand := by
  cases back with
  | nil => exact absurd known (mayPrecede_closing.mp (linked.last x (by simp)))
  | cons y back =>
    have chain := List.isChain_iff_forall_rel_of_append_cons_cons.mp linked.inside
    exact ⟨y, rfl, (chain rfl).2 known⟩

theorem wellFormed_iff {items : List Lexeme} :
    WellFormed items ↔ isBalanced 0 items = true ∧ IsLinked items := by
  have counts := isBalanced_iff_count 0 items
  simp only [Nat.zero_add] at counts
  constructor
  · intro well
    exact ⟨counts.mpr ⟨well.closed, well.paired⟩, isLinked_of_wellFormed well⟩
  · intro both
    obtain ⟨balanced, linked⟩ := both
    obtain ⟨closed, paired⟩ := counts.mp balanced
    refine ⟨closed, paired, ?_, ?_⟩
    · rintro front delimiter back known rfl
      exact ⟨exists_endsOperand linked (Or.inl known), exists_startsOperand linked known⟩
    · rintro front m back rfl
      exact exists_endsOperand linked (Or.inr ⟨m, rfl⟩)

instance (items : List Lexeme) : Decidable (WellFormed items) :=
  decidable_of_iff _ wellFormed_iff.symm

/-- A delimiter in a run stands between two linked runs. -/
theorem isLinked_append_delimiter {delimiter : Lexeme} (known : delimiter ∈ delimiters)
    {run rest : List Lexeme} (balanced : isBalanced 0 run = true)
    (balanced' : isBalanced 0 rest = true) :
    IsLinked (run ++ delimiter :: rest) ↔
      (run ≠ [] ∧ IsLinked run) ∧ rest ≠ [] ∧ IsLinked rest := by
  have notOpening : ¬ MayPrecede .opening delimiter := fun may =>
    (opening_mayPrecede.mp may).1 known
  have notClosing : ¬ MayPrecede delimiter .closing := fun may => mayPrecede_closing.mp may known
  rcases List.eq_nil_or_concat run with rfl | ⟨init, x, rfl⟩
  · constructor
    · intro linked
      exact absurd (linked.first delimiter rfl) notOpening
    · intro both
      exact absurd rfl both.1.1
  rw [List.concat_eq_append] at balanced ⊢
  cases rest with
  | nil =>
    constructor
    · intro linked
      exact absurd (linked.last delimiter (by simp)) notClosing
    · intro both
      exact absurd rfl both.2.1
  | cons y behind =>
    have before : MayPrecede x delimiter ↔ MayPrecede x .closing := by
      rw [mayPrecede_delimiter known]
      exact and_iff_right (getLast?_ne_opening balanced x List.getLast?_concat)
    have after : MayPrecede delimiter y ↔ MayPrecede .opening y := by
      rw [delimiter_mayPrecede known]
      exact and_iff_right (head?_ne_closing balanced' y rfl)
    have chain : (init ++ [x] ++ delimiter :: y :: behind).IsChain MayPrecede ↔
        (init ++ [x]).IsChain MayPrecede ∧ MayPrecede x .closing ∧ MayPrecede .opening y ∧
          (y :: behind).IsChain MayPrecede := by
      rw [List.isChain_append, List.isChain_cons_cons, after, ← before]
      simp only [List.getLast?_concat, List.head?_cons, Option.mem_some_iff, forall_eq']
      tauto
    have head : (init ++ [x] ++ delimiter :: y :: behind).head? = (init ++ [x]).head? := by simp
    have last : (init ++ [x] ++ delimiter :: y :: behind).getLast? = (y :: behind).getLast? := by
      rw [List.getLast?_append_cons, List.getLast?_cons_cons]
    simp only [isLinked_iff, chain, head, last, List.getLast?_concat, List.head?_cons,
      Option.mem_some_iff, forall_eq', ne_eq, List.append_eq_nil_iff, List.cons_ne_self,
      reduceCtorEq, and_false, not_false_eq_true, true_and]
    tauto

/-- The delimiters of a row stand between linked runs. -/
theorem isLinked_intercalate {delimiter : Lexeme} (known : delimiter ∈ delimiters)
    {runs : List (List Lexeme)} (nonempty : runs ≠ [])
    (balanced : ∀ run ∈ runs, isBalanced 0 run = true) :
    [delimiter].intercalate runs ≠ [] ∧ IsLinked ([delimiter].intercalate runs) ↔
      ∀ run ∈ runs, run ≠ [] ∧ IsLinked run := by
  induction runs with
  | nil => exact absurd rfl nonempty
  | cons run runs ih =>
    have others : ∀ other ∈ runs, isBalanced 0 other = true := fun other member =>
      balanced other (List.mem_cons_of_mem _ member)
    cases runs with
    | nil => simp [List.intercalate_singleton]
    | cons next runs =>
      have behind : IsWhole [] ([delimiter].intercalate (next :: runs)) :=
        isWhole_intercalate known List.not_mem_nil fun other member =>
          ⟨others other member, fun _ none => by cases none⟩
      rw [List.intercalate_cons_cons, List.append_assoc, List.singleton_append,
        isLinked_append_delimiter known (balanced run List.mem_cons_self) behind.balanced,
        ih (List.cons_ne_nil _ _) others, List.forall_mem_cons (a := run)]
      simp

/-! ### Sequences -/

theorem isChain_append_of_endsOperand {xs ys : List Lexeme}
    (ends : ∀ x ∈ xs.getLast?, x.EndsOperand) :
    (xs ++ ys).IsChain MayPrecede ↔ xs.IsChain MayPrecede ∧ ys.IsChain MayPrecede := by
  rw [List.isChain_append]
  have between : ∀ x ∈ xs.getLast?, ∀ y ∈ ys.head?, MayPrecede x y := fun x last y _ =>
    mayPrecede_of_endsOperand (ends x last) y
  tauto

theorem endsOperand_multiplier (m : Multiplier) : (Lexeme.multiplier m).EndsOperand := by
  simp [Lexeme.EndsOperand, delimiters, Combinator.delimited]

theorem isChain_multipliers (ms : List Multiplier) :
    (ms.map Lexeme.multiplier).IsChain MayPrecede := by
  induction ms with
  | nil => exact .nil
  | cons m ms ih =>
    have ends := mayPrecede_of_endsOperand (endsOperand_multiplier m)
    exact List.isChain_cons.mpr ⟨fun y _ => ends y, ih⟩

/-- What a bracketed run has to be like. -/
def Core.IsLinked (core : Core) : Prop :=
  ∀ inner, core = .brackets inner → Tree.IsLinked inner

theorem endsOperand_core (core : Core) : ∀ x ∈ core.lexemes.getLast?, x.EndsOperand := by
  cases core with
  | token text => simp [Core.lexemes, Lexeme.EndsOperand, delimiters, Combinator.delimited]
  | slash => simp [Core.lexemes, Lexeme.EndsOperand, delimiters, Combinator.delimited]
  | brackets inner =>
    rw [Core.lexemes, List.getLast?_concat]
    decide

theorem isChain_core (core : Core) : core.lexemes.IsChain MayPrecede ↔ core.IsLinked := by
  cases core with
  | token text => simp [Core.lexemes, Core.IsLinked]
  | slash => simp [Core.lexemes, Core.IsLinked]
  | brackets inner =>
    have nothing : MayPrecede .opening .closing := mayPrecede_closing.mpr (by decide)
    have first : (∀ y ∈ (inner ++ [Lexeme.closing]).head?, MayPrecede .opening y) ↔
        ∀ y ∈ inner.head?, MayPrecede .opening y := by
      cases inner with
      | nil => simpa using nothing
      | cons y inner => simp
    rw [Core.lexemes, List.cons_append, List.isChain_cons, List.isChain_append, first]
    simp [Core.IsLinked, isLinked_iff]
    tauto

theorem isChain_part (part : Part) :
    part.lexemes.IsChain MayPrecede ↔ part.core.IsLinked := by
  rw [Part.lexemes, isChain_append_of_endsOperand (endsOperand_core part.core), isChain_core]
  exact and_iff_left (isChain_multipliers part.multipliers)

theorem endsOperand_part (part : Part) : ∀ x ∈ part.lexemes.getLast?, x.EndsOperand := by
  intro x last
  rw [Part.lexemes, List.getLast?_append, Option.mem_def, Option.or_eq_some_iff] at last
  rcases last with multiplier | ⟨-, core⟩
  · obtain ⟨m, -, rfl⟩ := List.mem_map.mp (List.mem_of_getLast? multiplier)
    exact endsOperand_multiplier m
  · exact endsOperand_core part.core x core

theorem endsOperand_parts (found : List Part) :
    ∀ x ∈ (found.flatMap Part.lexemes).getLast?, x.EndsOperand := by
  induction found with
  | nil => simp
  | cons part found ih =>
    intro x last
    rw [List.flatMap_cons, List.getLast?_append, Option.mem_def, Option.or_eq_some_iff] at last
    rcases last with later | ⟨-, here⟩
    · exact ih x later
    · exact endsOperand_part part x here

/-- A row of operands is linked if the runs between its brackets are. -/
theorem isLinked_parts (found : List Part) :
    IsLinked (found.flatMap Part.lexemes) ↔ ∀ part ∈ found, part.core.IsLinked := by
  have chain : (found.flatMap Part.lexemes).IsChain MayPrecede ↔
      ∀ part ∈ found, part.core.IsLinked := by
    induction found with
    | nil => simp
    | cons part found ih =>
      rw [List.flatMap_cons, isChain_append_of_endsOperand (endsOperand_part part), isChain_part,
        ih, List.forall_mem_cons]
  have first : ∀ y ∈ (found.flatMap Part.lexemes).head?, MayPrecede .opening y := by
    cases found with
    | nil => simp
    | cons part found =>
      obtain ⟨core, multipliers⟩ := part
      cases core <;>
        simp [Part.lexemes, Core.lexemes, opening_mayPrecede, delimiters, Combinator.delimited]
  have last : ∀ x ∈ (found.flatMap Part.lexemes).getLast?, MayPrecede x .closing :=
    fun x last => mayPrecede_of_endsOperand (endsOperand_parts found x last) _
  rw [isLinked_iff, chain]
  exact and_iff_left ⟨first, last⟩

theorem startsMultiplier_leadingMultipliers (items : List Lexeme) :
    startsMultiplier (leadingMultipliers items).2 = false := by
  fun_induction leadingMultipliers items with
  | case1 m rest more ih => exact ih
  | case2 rest other =>
    cases rest with
    | nil => rfl
    | cons x behind =>
      cases x with
      | multiplier m => exact (other m behind rfl).elim
      | _ => rfl

/-- An operand takes all the multipliers behind it. -/
theorem startsMultiplier_nextPart? {items : List Lexeme} {part : Part} {rest : List Lexeme}
    (next : nextPart? items = some (part, rest)) : startsMultiplier rest = false := by
  unfold nextPart? at next
  split at next <;> cases next <;> exact startsMultiplier_leadingMultipliers _

/-- A run that is no sequence is one up to a lexeme that starts no operand; that is no multiplier,
unless it stands in front. -/
theorem parts_eq_error {items : List Lexeme} (balanced : isBalanced 0 items = true) {x : Lexeme}
    (unread : parts items = .error x) :
    ∃ found rest, items = found.flatMap Part.lexemes ++ x :: rest ∧
      (∀ part ∈ found, part.core.IsSound) ∧ nextPart? (x :: rest) = none ∧
        ((∃ m, x = .multiplier m) → found = []) := by
  fun_induction parts items with
  | case1 => cases unread
  | case2 y more none =>
    cases unread
    exact ⟨[], more, rfl, by simp, none, fun _ => rfl⟩
  | case3 y more part rest next ih =>
    obtain ⟨whole, sound, behind⟩ := nextPart?_spec balanced next
    cases later : parts rest with
    | ok found =>
      rw [later] at unread
      cases unread
    | error other =>
      rw [later] at unread
      cases unread
      obtain ⟨found, after, eq, allSound, refused, alone⟩ := ih behind later
      refine ⟨part :: found, after, ?_, ?_, refused, ?_⟩
      · rw [whole, eq, List.flatMap_cons, List.append_assoc]
      · intro candidate member
        rcases List.mem_cons.mp member with rfl | member
        · exact sound
        · exact allSound candidate member
      · intro multiplier
        have none := alone multiplier
        obtain ⟨m, rfl⟩ := multiplier
        have stop := startsMultiplier_nextPart? next
        rw [eq, none] at stop
        cases stop

/-! ### Acceptance -/

/-- A lexeme where the reader finds no operand has no right neighbours. -/
theorem not_isLinked_of_parts_error {items : List Lexeme} (balanced : isBalanced 0 items = true)
    (uncut : split? items = none) {x : Lexeme} (unread : parts items = .error x) :
    ¬ IsLinked items := by
  intro linked
  obtain ⟨found, rest, rfl, sound, refused, alone⟩ := parts_eq_error balanced unread
  have notDelimiter : x ∉ delimiters := by
    intro known
    obtain ⟨kind, member, rfl⟩ := List.mem_map.mp known
    have whole := List.findSome?_eq_none_iff.mp uncut kind member
    rw [operands_parts known sound, operands_delimiter, foldr_consFirst] at whole
    cases runs : operands kind.2 0 rest with
    | nil => exact absurd runs (operands_ne_nil _ _ _)
    | cons first others => simp [runs] at whole
  cases x with
  | token text => cases refused
  | slash => cases refused
  | opening => cases refused
  | closing =>
    rw [isBalanced_parts sound] at balanced
    cases balanced
  | multiplier m =>
    have none := alone ⟨m, rfl⟩
    subst none
    exact (opening_mayPrecede.mp (linked.first _ rfl)).2 m rfl
  | _ => exact notDelimiter (by decide)

/-- A run between delimiters has a tree if the runs in between have trees. -/
theorem exists_ofBalanced_of_split? {items : List Lexeme} {kind : Combinator × Lexeme}
    {runs : List (List Lexeme)} (cut : split? items = some (kind, runs)) :
    (∃ tree, ofBalanced items = .ok tree) ↔
      ∀ run ∈ runs, run ≠ [] ∧ ∃ tree, ofBalanced run = .ok tree := by
  rw [ofBalanced_of_split? cut]
  split
  · next empty =>
    obtain ⟨run, member, none⟩ := List.any_eq_true.mp empty
    constructor
    · intro given
      obtain ⟨tree, built⟩ := given
      cases built
    · intro each
      exact absurd (List.isEmpty_iff.mp none) (each run member).1
  · next solid =>
    rw [exists_map_eq_ok, exists_mapM_eq_ok]
    refine forall₂_congr fun run member => (and_iff_right ?_).symm
    rintro rfl
    exact solid (List.any_eq_true.mpr ⟨[], member, rfl⟩)

/-- A sequence has a tree if the runs between its brackets have trees. -/
theorem exists_ofBalanced_of_parts {items : List Lexeme} (uncut : split? items = none)
    {found : List Part} (read : parts items = .ok found) :
    (∃ tree, ofBalanced items = .ok tree) ↔
      ∀ part ∈ found, ∀ inner, part.core = .brackets inner →
        ∃ tree, ofBalanced inner = .ok tree := by
  rw [ofBalanced_of_parts uncut read, exists_map_eq_ok, exists_mapM_eq_ok]
  refine forall₂_congr fun part _ => ?_
  rw [Part.tree, exists_map_eq_ok]
  cases part.core with
  | token text => simp [Core.tree]
  | slash => simp [Core.tree]
  | brackets inner => simp [Core.tree]

/-- A run with balanced brackets has a tree if its neighbours may stand as they do. -/
theorem exists_ofBalanced_iff {items : List Lexeme} (balanced : isBalanced 0 items = true) :
    (∃ tree, ofBalanced items = .ok tree) ↔ IsLinked items := by
  induction size : items.length using Nat.strongRecOn generalizing items with
  | ind n ih =>
    subst size
    cases cut : split? items with
    | some answer =>
      obtain ⟨kind, runs⟩ := answer
      obtain ⟨member, rfl, enough⟩ := split?_eq_some cut
      have sound := isBalanced_of_split? balanced cut
      have each : ∀ run ∈ operands kind.2 0 items,
          (run ≠ [] ∧ ∃ tree, ofBalanced run = .ok tree) ↔ run ≠ [] ∧ IsLinked run :=
        fun run inside => and_congr_right'
          (ih _ (split?_shorter cut run inside) (sound run inside) rfl)
      have nonempty : items ≠ [] := by
        rintro rfl
        simp [operands] at enough
      have row := isLinked_intercalate (List.mem_map_of_mem member) (operands_ne_nil _ _ _) sound
      rw [intercalate_operands] at row
      rw [exists_ofBalanced_of_split? cut, forall₂_congr each, ← row]
      exact and_iff_right nonempty
    | none =>
      cases read : parts items with
      | error x =>
        have unlinked := not_isLinked_of_parts_error balanced cut read
        rw [ofBalanced_of_parts_error cut read]
        simp [unlinked]
      | ok found =>
        have shorter := parts_shorter read
        obtain ⟨whole, sound⟩ := parts_spec balanced read
        rw [exists_ofBalanced_of_parts cut read, whole, isLinked_parts]
        refine forall₂_congr fun part member => forall₂_congr fun inner core => ?_
        have inside := sound part member
        rw [core] at inside
        exact ih _ (shorter part member inner core) inside rfl

/-- Among the lexemes up to the bracket that closes an opened one, none closes that one. -/
theorem bracketed_closes_no_more (depth : Nat) (items : List Lexeme) {front : List Lexeme}
    (within : front <+: (bracketed depth items).1) :
    front.count .closing ≤ depth + front.count .opening := by
  induction items generalizing depth front with
  | nil =>
    rw [List.prefix_nil.mp within]
    simp
  | cons x rest ih =>
    rw [bracketed] at within
    split at within
    · rw [List.prefix_nil.mp within]
      simp
    · next inside =>
      have closes : x = .closing → depth ≠ 0 := fun closing none => inside ⟨none, closing⟩
      rcases List.prefix_cons_iff.mp within with rfl | ⟨behind, rfl, later⟩
      · simp
      · have step := depthAfter_count closes behind
        have := ih (depthAfter depth x) later
        omega

/-- The reader makes a tree of the well-formed runs and of no others, which it refuses. While it
looks for the bracket that closes an opened one, that one stays open. -/
theorem ofLexemes_accepts_wellFormed :
    (∀ items, (∃ tree, ofLexemes items = .ok tree) ↔ WellFormed items) ∧
      (∀ items, ¬ WellFormed items → ∃ cause, ofLexemes items = .error cause) ∧
        ∀ rest front, front <+: (bracketed 0 rest).1 →
          front.count .closing ≤ front.count .opening := by
  have accepts (items : List Lexeme) :
      (∃ tree, ofLexemes items = .ok tree) ↔ WellFormed items := by
    rw [wellFormed_iff]
    simp only [ofLexemes_eq_ok, exists_and_left]
    exact and_congr_right exists_ofBalanced_iff
  refine ⟨accepts, fun items malformed => ?_, fun rest front within => ?_⟩
  · cases read : ofLexemes items with
    | error cause => exact ⟨cause, rfl⟩
    | ok tree => exact absurd ((accepts items).mp ⟨tree, read⟩) malformed
  · have closed := bracketed_closes_no_more 0 rest within
    rwa [Nat.zero_add] at closed

/-- `[a | /]?` has a tree and `a |` has none. -/
theorem ofLexemes_accepts_wellFormed_choice :
    (∃ tree, ofLexemes [.opening, .token "a", .bar, .slash, .closing, .multiplier .optional] =
        .ok tree) ∧
      (∃ cause, ofLexemes [.token "a", .bar] = .error cause) ∧
        [Lexeme.opening, .closing].count .closing ≤ [Lexeme.opening, .closing].count .opening := by
  obtain ⟨accepts, refuses, stays⟩ := ofLexemes_accepts_wellFormed
  exact ⟨(accepts _).mpr (by decide), refuses _ (by decide),
    stays [.opening, .closing, .closing, .token "a"] _ (by decide)⟩

end Tree

end ValueGrammar
