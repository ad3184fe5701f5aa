import ValueGrammar.Proofs.Pointwise
import ValueGrammar.Tree.Reader

/-!
The reader of combinator trees, run by run: what a bracketed run hides from the reader, how the
operands of a sequence are written, and one equation and one induction for the whole reader.
-/
namespace ValueGrammar.Tree

/-! ### Brackets -/

theorem isBalanced_cons (depth : Nat) (x : Lexeme) (rest : List Lexeme) :
    isBalanced depth (x :: rest) = true ↔
      (x = .closing → depth ≠ 0) ∧ isBalanced (depthAfter depth x) rest = true := by
  cases x <;> simp [isBalanced, depthAfter]

theorem depthAfter_add {depth : Nat} {x : Lexeme} (closes : x = .closing → depth ≠ 0) (more : Nat) :
    depthAfter (depth + more) x = depthAfter depth x + more := by
  cases x with
  | opening =>
    simp only [depthAfter]
    omega
  | closing =>
    have := closes rfl
    simp only [depthAfter]
    omega
  | _ => rfl

/-- A balanced run leaves the brackets around it as they are. -/
theorem isBalanced_append {depth : Nat} {inner : List Lexeme}
    (balanced : isBalanced depth inner = true) (more : Nat) (rest : List Lexeme) :
    isBalanced (depth + more) (inner ++ rest) = isBalanced more rest := by
  induction inner generalizing depth with
  | nil =>
    have none : depth = 0 := by simpa [isBalanced] using balanced
    rw [none, Nat.zero_add, List.nil_append]
  | cons x inner ih =>
    obtain ⟨closes, behind⟩ := (isBalanced_cons ..).mp balanced
    have outer : x = .closing → depth + more ≠ 0 := by
      intro closing
      have := closes closing
      omega
    rw [Bool.eq_iff_iff, List.cons_append, isBalanced_cons, depthAfter_add closes, ih behind]
    constructor
    · intro both
      exact both.2
    · intro last
      exact ⟨outer, last⟩

theorem isBalanced_enclosed {inner : List Lexeme} (balanced : isBalanced 0 inner = true)
    (depth : Nat) (rest : List Lexeme) :
    isBalanced depth (.opening :: inner ++ .closing :: rest) = isBalanced depth rest := by
  have inside := isBalanced_append balanced (depth + 1) (.closing :: rest)
  rw [Nat.zero_add] at inside
  change isBalanced (depth + 1) (inner ++ .closing :: rest) = _
  rw [inside]
  simp [isBalanced]

theorem bracketed_append {depth : Nat} {inner : List Lexeme}
    (balanced : isBalanced depth inner = true) (more : Nat) (rest : List Lexeme) :
    bracketed (depth + more) (inner ++ rest) =
      (inner ++ (bracketed more rest).1, (bracketed more rest).2) := by
  induction inner generalizing depth with
  | nil =>
    have none : depth = 0 := by simpa [isBalanced] using balanced
    rw [none, Nat.zero_add]
    rfl
  | cons x inner ih =>
    obtain ⟨closes, behind⟩ := (isBalanced_cons ..).mp balanced
    have open' : ¬ (depth + more = 0 ∧ x = .closing) := by
      intro given
      obtain ⟨none, closing⟩ := given
      have := closes closing
      omega
    rw [List.cons_append, bracketed, if_neg open', depthAfter_add closes, ih behind]
    rfl

/-- The run behind an opened bracket is cut at the bracket that closes it. -/
theorem bracketed_spec (depth more : Nat) {items : List Lexeme}
    (balanced : isBalanced (depth + more + 1) items = true) :
    items = (bracketed depth items).1 ++ .closing :: (bracketed depth items).2 ∧
      isBalanced depth (bracketed depth items).1 = true ∧
        isBalanced more (bracketed depth items).2 = true := by
  induction items generalizing depth with
  | nil => simp [isBalanced] at balanced
  | cons x rest ih =>
    obtain ⟨-, behind⟩ := (isBalanced_cons ..).mp balanced
    unfold bracketed
    by_cases closed : depth = 0 ∧ x = .closing
    · rw [if_pos closed]
      rcases closed with ⟨rfl, rfl⟩
      simp only [depthAfter, Nat.zero_add, Nat.add_sub_cancel] at behind
      exact ⟨rfl, rfl, behind⟩
    · rw [if_neg closed]
      have closes : x = .closing → depth ≠ 0 := fun closing none => closed ⟨none, closing⟩
      have deeper : depthAfter (depth + more + 1) x = depthAfter depth x + more + 1 := by
        rw [Nat.add_assoc, depthAfter_add closes, Nat.add_assoc]
      rw [deeper] at behind
      obtain ⟨whole, inside, outside⟩ := ih _ behind
      refine ⟨?_, (isBalanced_cons ..).mpr ⟨closes, inside⟩, outside⟩
      rw [List.cons_append, ← whole]

/-! ### Cutting at delimiters -/

theorem foldr_consFirst (xs run : List Lexeme) (runs : List (List Lexeme)) :
    xs.foldr consFirst (run :: runs) = (xs ++ run) :: runs := by
  induction xs with
  | nil => rfl
  | cons x xs ih => rw [List.foldr_cons, ih, consFirst, List.cons_append]

theorem operands_cons {delimiter x : Lexeme} (different : x ≠ delimiter) (depth : Nat)
    (rest : List Lexeme) :
    operands delimiter depth (x :: rest) =
      consFirst x (operands delimiter (depthAfter depth x) rest) := by
  rw [operands, if_neg fun cut => different cut.2]

theorem operands_delimiter (delimiter : Lexeme) (rest : List Lexeme) :
    operands delimiter 0 (delimiter :: rest) = [] :: operands delimiter 0 rest := by
  rw [operands, if_pos ⟨rfl, rfl⟩]

/-- Within brackets nothing is cut. -/
theorem operands_inside {depth : Nat} {inner : List Lexeme}
    (balanced : isBalanced depth inner = true) (delimiter : Lexeme) (more : Nat)
    (rest : List Lexeme) :
    operands delimiter (depth + (more + 1)) (inner ++ rest) =
      inner.foldr consFirst (operands delimiter (more + 1) rest) := by
  induction inner generalizing depth with
  | nil =>
    have none : depth = 0 := by simpa [isBalanced] using balanced
    rw [none, Nat.zero_add]
    rfl
  | cons x inner ih =>
    obtain ⟨closes, behind⟩ := (isBalanced_cons ..).mp balanced
    have uncut : ¬ (depth + (more + 1) = 0 ∧ x = delimiter) := by omega
    rw [List.cons_append, operands, if_neg uncut, depthAfter_add closes, ih behind]
    rfl

theorem operands_enclosed {delimiter : Lexeme} (notOpening : delimiter ≠ .opening)
    {inner : List Lexeme} (balanced : isBalanced 0 inner = true) (depth : Nat)
    (rest : List Lexeme) :
    operands delimiter depth (.opening :: inner ++ .closing :: rest) =
      (Lexeme.opening :: inner ++ [Lexeme.closing]).foldr consFirst (operands delimiter depth rest) := by
  have inside := operands_inside balanced delimiter depth (.closing :: rest)
  have uncut : ¬ (depth + 1 = 0 ∧ Lexeme.closing = delimiter) := by omega
  have closing : operands delimiter (depth + 1) (.closing :: rest) =
      consFirst .closing (operands delimiter depth rest) := by
    rw [operands, if_neg uncut]
    rfl
  rw [Nat.zero_add, closing] at inside
  rw [List.cons_append, operands_cons notOpening.symm]
  change consFirst .opening (operands delimiter (depth + 1) (inner ++ .closing :: rest)) = _
  rw [inside, List.cons_append, List.foldr_cons, List.foldr_append]
  rfl

/-- The operands of a run of balanced brackets have balanced brackets themselves. -/
theorem isBalanced_of_mem_operands {delimiter : Lexeme} (notClosing : delimiter ≠ .closing)
    (notOpening : delimiter ≠ .opening) {depth : Nat} {items : List Lexeme}
    (balanced : isBalanced depth items = true) :
    ∃ first others, operands delimiter depth items = first :: others ∧
      isBalanced depth first = true ∧ ∀ run ∈ others, isBalanced 0 run = true := by
  induction items generalizing depth with
  | nil => exact ⟨[], [], rfl, balanced, by simp⟩
  | cons x rest ih =>
    obtain ⟨closes, behind⟩ := (isBalanced_cons ..).mp balanced
    obtain ⟨first, others, cut, balancedFirst, balancedOthers⟩ := ih behind
    by_cases here : depth = 0 ∧ x = delimiter
    · rcases here with ⟨rfl, rfl⟩
      have same : depthAfter 0 x = 0 := by
        cases x with
        | opening => exact absurd rfl notOpening
        | _ => rfl
      rw [same] at cut balancedFirst
      refine ⟨[], first :: others, ?_, rfl, ?_⟩
      · rw [operands_delimiter, cut]
      · intro run member
        rcases List.mem_cons.mp member with rfl | later
        · exact balancedFirst
        · exact balancedOthers run later
    · refine ⟨x :: first, others, ?_, (isBalanced_cons ..).mpr ⟨closes, balancedFirst⟩,
        balancedOthers⟩
      rw [operands, if_neg here, cut]
      rfl

/-- The operands of a run, joined by the delimiter again, are the run. -/
theorem intercalate_operands (delimiter : Lexeme) (depth : Nat) (items : List Lexeme) :
    [delimiter].intercalate (operands delimiter depth items) = items := by
  induction items generalizing depth with
  | nil => rfl
  | cons x rest ih =>
    unfold operands
    split
    · next cut =>
      have later := ih 0
      cases runs : operands delimiter 0 rest with
      | nil => exact absurd runs (operands_ne_nil _ _ _)
      | cons first others =>
        rw [runs] at later
        rw [List.intercalate_cons_cons, later, cut.2]
        rfl
    · have later := ih (depthAfter depth x)
      cases runs : operands delimiter (depthAfter depth x) rest with
      | nil => exact absurd runs (operands_ne_nil _ _ _)
      | cons first others =>
        rw [runs] at later
        rw [← later, consFirst]
        cases others with
        | nil => simp [List.intercalate]
        | cons second others => simp [List.intercalate]

theorem mem_of_mem_operands {delimiter : Lexeme} {depth : Nat} {items run : List Lexeme}
    (member : run ∈ operands delimiter depth items) : run ⊆ items := by
  induction items generalizing depth run with
  | nil =>
    rw [operands, List.mem_singleton] at member
    rw [member]
    exact List.Subset.refl []
  | cons x rest ih =>
    unfold operands at member
    split at member
    · rcases List.mem_cons.mp member with rfl | later
      · exact List.nil_subset _
      · exact List.subset_cons_of_subset x (ih later)
    · cases cut : operands delimiter (depthAfter depth x) rest with
      | nil => exact absurd cut (operands_ne_nil _ _ _)
      | cons first others =>
        rw [cut] at member
        rcases List.mem_cons.mp member with rfl | later
        · exact List.cons_subset_cons x (ih (cut ▸ List.mem_cons_self))
        · exact List.subset_cons_of_subset x (ih (cut ▸ List.mem_cons_of_mem _ later))

/-! ### Operands of sequences -/

def Core.lexemes : Core → List Lexeme
  | token text => [.token text]
  | slash => [.slash]
  | brackets inner => .opening :: inner ++ [.closing]

theorem lexemes_ne_nil (core : Core) : core.lexemes ≠ [] := by
  cases core <;> exact List.cons_ne_nil _ _

def Core.IsSound : Core → Prop
  | brackets inner => isBalanced 0 inner = true
  | _ => True

def Part.lexemes (part : Part) : List Lexeme :=
  part.core.lexemes ++ part.multipliers.map .multiplier

def startsMultiplier : List Lexeme → Bool
  | .multiplier _ :: _ => true
  | _ => false

theorem leadingMultipliers_append (multipliers : List Multiplier) {rest : List Lexeme}
    (stop : startsMultiplier rest = false) :
    leadingMultipliers (multipliers.map .multiplier ++ rest) = (multipliers, rest) := by
  induction multipliers with
  | nil =>
    cases rest with
    | nil => rfl
    | cons x rest =>
      cases x with
      | multiplier m => cases stop
      | _ => rfl
  | cons m multipliers ih => simp only [List.map_cons, List.cons_append, leadingMultipliers, ih]

theorem leadingMultipliers_spec (items : List Lexeme) :
    items = (leadingMultipliers items).1.map .multiplier ++ (leadingMultipliers items).2 := by
  induction items with
  | nil => rfl
  | cons x rest ih =>
    cases x with
    | multiplier m =>
      simp only [leadingMultipliers, List.map_cons, List.cons_append]
      rw [← ih]
    | _ => rfl

theorem startsMultiplier_lexemes (core : Core) (rest : List Lexeme) :
    startsMultiplier (core.lexemes ++ rest) = false := by
  cases core <;> rfl

theorem nextPart?_lexemes {part : Part} (sound : part.core.IsSound) {rest : List Lexeme}
    (stop : startsMultiplier rest = false) :
    nextPart? (part.lexemes ++ rest) = some (part, rest) := by
  have multipliers := leadingMultipliers_append part.multipliers stop
  obtain ⟨core, behind⟩ := part
  simp only [Part.lexemes, List.append_assoc] at multipliers ⊢
  cases core with
  | token text => simp only [Core.lexemes, List.cons_append, List.nil_append, nextPart?,
      Core.withMultipliers, multipliers]
  | slash => simp only [Core.lexemes, List.cons_append, List.nil_append, nextPart?,
      Core.withMultipliers, multipliers]
  | brackets inner =>
    have cut := bracketed_append sound 0 (.closing :: (behind.map .multiplier ++ rest))
    simp only [Nat.zero_add, bracketed, and_self, if_true, List.append_nil] at cut
    simp only [Core.lexemes, List.cons_append, List.append_assoc, List.nil_append, nextPart?,
      Core.withMultipliers, cut, multipliers]

/-- The operands of a sequence are read off their lexemes. -/
theorem parts_lexemes {found : List Part} (sound : ∀ part ∈ found, part.core.IsSound) :
    parts (found.flatMap Part.lexemes) = .ok found := by
  induction found with
  | nil =>
    unfold parts
    rfl
  | cons part found ih =>
    have stop : startsMultiplier (found.flatMap Part.lexemes) = false := by
      cases found with
      | nil => rfl
      | cons next found =>
        rw [List.flatMap_cons, Part.lexemes, List.append_assoc]
        exact startsMultiplier_lexemes next.core _
    have next := nextPart?_lexemes (sound part List.mem_cons_self) stop
    have others := ih fun other member => sound other (List.mem_cons_of_mem _ member)
    rw [List.flatMap_cons]
    cases whole : part.lexemes ++ found.flatMap Part.lexemes with
    | nil =>
      rw [whole] at next
      cases next
    | cons x more =>
      rw [whole] at next
      unfold parts
      split
      · next none =>
        rw [next] at none
        cases none
      · next part' rest found' =>
        rw [next] at found'
        cases found'
        rw [others]
        rfl

theorem isBalanced_multipliers (depth : Nat) (multipliers : List Multiplier) (rest : List Lexeme) :
    isBalanced depth (multipliers.map .multiplier ++ rest) = isBalanced depth rest := by
  induction multipliers with
  | nil => rfl
  | cons m multipliers ih => exact ih

theorem nextPart?_spec {items : List Lexeme} (balanced : isBalanced 0 items = true) {part : Part}
    {rest : List Lexeme} (next : nextPart? items = some (part, rest)) :
    items = part.lexemes ++ rest ∧ part.core.IsSound ∧ isBalanced 0 rest = true := by
  have multipliers (after : List Lexeme) (balanced : isBalanced 0 after = true) :
      isBalanced 0 (leadingMultipliers after).2 = true := by
    rw [leadingMultipliers_spec after, isBalanced_multipliers] at balanced
    exact balanced
  unfold nextPart? at next
  split at next
  · next text after =>
    cases next
    refine ⟨?_, trivial, multipliers after balanced⟩
    change _ = Lexeme.token text :: ((leadingMultipliers after).1.map .multiplier ++ _)
    rw [← leadingMultipliers_spec]
  · next after =>
    cases next
    refine ⟨?_, trivial, multipliers after balanced⟩
    change _ = Lexeme.slash :: ((leadingMultipliers after).1.map .multiplier ++ _)
    rw [← leadingMultipliers_spec]
  · next after =>
    obtain ⟨whole, inside, outside⟩ := bracketed_spec 0 0 balanced
    cases next
    refine ⟨?_, inside, multipliers _ outside⟩
    simp only [Part.lexemes, Core.lexemes, List.append_assoc, List.cons_append, List.nil_append]
    rw [← leadingMultipliers_spec, ← whole]
  · cases next

/-- A run that is read as a sequence consists of the lexemes of its operands. -/
theorem parts_spec {items : List Lexeme} (balanced : isBalanced 0 items = true)
    {found : List Part} (read : parts items = .ok found) :
    items = found.flatMap Part.lexemes ∧ ∀ part ∈ found, part.core.IsSound := by
  fun_induction parts items generalizing found with
  | case1 =>
    cases read
    exact ⟨rfl, by simp⟩
  | case2 => cases read
  | case3 x more part rest next ih =>
    obtain ⟨whole, sound, behind⟩ := nextPart?_spec balanced next
    cases later : parts rest with
    | error item =>
      rw [later] at read
      cases read
    | ok others =>
      rw [later] at read
      cases read
      obtain ⟨eq, allSound⟩ := ih behind later
      refine ⟨?_, ?_⟩
      · rw [List.flatMap_cons, ← eq, ← whole]
      · intro other member
        rcases List.mem_cons.mp member with rfl | member
        · exact sound
        · exact allSound other member

/-! ### Operands of delimiters -/

def delimiters : List Lexeme :=
  Combinator.delimited.map (·.2)

theorem not_bracket_of_delimiter {delimiter : Lexeme} (member : delimiter ∈ delimiters) :
    delimiter ≠ .opening ∧ delimiter ≠ .closing := by
  have all : ∀ delimiter ∈ delimiters, delimiter ≠ .opening ∧ delimiter ≠ .closing := by decide
  exact all delimiter member

/-- Operands of a sequence are not cut at delimiters. -/
theorem operands_part {delimiter : Lexeme} (member : delimiter ∈ delimiters) (part : Part)
    (sound : part.core.IsSound) (depth : Nat) (rest : List Lexeme) :
    operands delimiter depth (part.lexemes ++ rest) =
      part.lexemes.foldr consFirst (operands delimiter depth rest) := by
  have noMultiplier (m : Multiplier) : Lexeme.multiplier m ≠ delimiter := by
    intro given
    subst given
    simp [delimiters, Combinator.delimited] at member
  have multipliers (ms : List Multiplier) :
      operands delimiter depth (ms.map .multiplier ++ rest) =
        (ms.map Lexeme.multiplier).foldr consFirst (operands delimiter depth rest) := by
    induction ms with
    | nil => rfl
    | cons m ms ih =>
      rw [List.map_cons, List.cons_append, operands_cons (noMultiplier m), List.foldr_cons, ← ih]
      rfl
  rw [Part.lexemes, List.append_assoc, List.foldr_append, ← multipliers]
  cases core : part.core with
  | token text =>
    have different : Lexeme.token text ≠ delimiter := by
      intro given
      subst given
      simp [delimiters, Combinator.delimited] at member
    exact operands_cons different depth _
  | slash =>
    have different : Lexeme.slash ≠ delimiter := by
      intro given
      subst given
      simp [delimiters, Combinator.delimited] at member
    exact operands_cons different depth _
  | brackets inner =>
    rw [core] at sound
    have cut := operands_enclosed (not_bracket_of_delimiter member).1 sound depth
      (part.multipliers.map .multiplier ++ rest)
    simp only [Core.lexemes, List.cons_append, List.append_assoc, List.nil_append] at cut ⊢
    exact cut

theorem operands_parts {delimiter : Lexeme} (member : delimiter ∈ delimiters) {found : List Part}
    (sound : ∀ part ∈ found, part.core.IsSound) (depth : Nat) (rest : List Lexeme) :
    operands delimiter depth (found.flatMap Part.lexemes ++ rest) =
      (found.flatMap Part.lexemes).foldr consFirst (operands delimiter depth rest) := by
  induction found with
  | nil => rfl
  | cons part found ih =>
    rw [List.flatMap_cons, List.append_assoc, operands_part member part (sound part List.mem_cons_self),
      ih fun other later => sound other (List.mem_cons_of_mem _ later), List.foldr_append]

end ValueGrammar.Tree
