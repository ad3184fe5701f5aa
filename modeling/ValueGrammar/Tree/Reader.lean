import ValueGrammar.Error
import ValueGrammar.Tree.Basic

/-!
Building the tree of a run of lexemes. The run is cut at the delimiters of the combinator that
binds least, and each piece is read in the same way; a run without delimiters outside brackets is
a sequence of tokens, slashes and bracketed runs, each with its multipliers.

`Tree.ofLexemes` refuses unbalanced brackets before anything else, so below it every closing
bracket has its opening one.
-/
namespace ValueGrammar.Tree

/-- Whether every bracket has its partner, with `depth` brackets open already. -/
def isBalanced : Nat → List Lexeme → Bool
  | depth, [] => depth == 0
  | depth, .opening :: rest => isBalanced (depth + 1) rest
  | depth, .closing :: rest => depth != 0 && isBalanced (depth - 1) rest
  | depth, _ :: rest => isBalanced depth rest

def depthAfter (depth : Nat) : Lexeme → Nat
  | .opening => depth + 1
  | .closing => depth - 1
  | _ => depth

def consFirst (x : Lexeme) : List (List Lexeme) → List (List Lexeme)
  | [] => [[x]]
  | run :: runs => (x :: run) :: runs

/-- The runs between the delimiters that stand outside all brackets, with `depth` brackets open
already. -/
def operands (delimiter : Lexeme) : Nat → List Lexeme → List (List Lexeme)
  | _, [] => [[]]
  | depth, x :: rest =>
    if depth = 0 ∧ x = delimiter then [] :: operands delimiter 0 rest
    else consFirst x (operands delimiter (depthAfter depth x) rest)

/-- The least binding combinator whose delimiter occurs outside all brackets, with that delimiter
and the operands it separates. -/
def split? (items : List Lexeme) : Option ((Combinator × Lexeme) × List (List Lexeme)) :=
  Combinator.delimited.findSome? fun kind =>
    let runs := operands kind.2 0 items
    if 2 ≤ runs.length then some (kind, runs) else none

/-- The lexemes up to the bracket that closes an opened one, and those behind it, with `depth`
further brackets open already. -/
def bracketed : Nat → List Lexeme → List Lexeme × List Lexeme
  | _, [] => ([], [])
  | depth, x :: rest =>
    if depth = 0 ∧ x = .closing then ([], rest)
    else
      let inner := bracketed (depthAfter depth x) rest
      (x :: inner.1, inner.2)

/-- An operand of a sequence before its multipliers. -/
inductive Core where
  | token (text : String)
  | slash
  | brackets (inner : List Lexeme)
  deriving Repr

/-- An operand of a sequence with the multipliers behind it. -/
structure Part where
  core : Core
  multipliers : List Multiplier
  deriving Repr

def leadingMultipliers : List Lexeme → List Multiplier × List Lexeme
  | .multiplier m :: rest =>
    let more := leadingMultipliers rest
    (m :: more.1, more.2)
  | rest => ([], rest)

def Core.withMultipliers (core : Core) (rest : List Lexeme) : Part × List Lexeme :=
  let read := leadingMultipliers rest
  (⟨core, read.1⟩, read.2)

def nextPart? : List Lexeme → Option (Part × List Lexeme)
  | .token text :: rest => some ((Core.token text).withMultipliers rest)
  | .slash :: rest => some (Core.slash.withMultipliers rest)
  | .opening :: rest =>
    let read := bracketed 0 rest
    some ((Core.brackets read.1).withMultipliers read.2)
  | _ => none

theorem length_bracketed (depth : Nat) (items : List Lexeme) :
    (bracketed depth items).1.length + (bracketed depth items).2.length ≤ items.length := by
  induction items generalizing depth with
  | nil => simp [bracketed]
  | cons x rest ih =>
    unfold bracketed
    split
    · simp
    · have := ih (depthAfter depth x)
      simp only [List.length_cons]
      omega

theorem length_leadingMultipliers (items : List Lexeme) :
    (leadingMultipliers items).2.length ≤ items.length := by
  fun_induction leadingMultipliers items with
  | case1 m rest more ih =>
    change (leadingMultipliers rest).2.length ≤ _
    simp only [List.length_cons]
    omega
  | case2 => simp

theorem nextPart?_shorter {items : List Lexeme} {part : Part} {rest : List Lexeme}
    (h : nextPart? items = some (part, rest)) :
    rest.length < items.length ∧
      ∀ inner, part.core = .brackets inner → inner.length < items.length := by
  unfold nextPart? at h
  split at h
  · next text after =>
    have := length_leadingMultipliers after
    simp only [Core.withMultipliers, Option.some.injEq, Prod.mk.injEq] at h
    rw [← h.1, ← h.2]
    exact ⟨by simp only [List.length_cons]; omega, fun inner eq => by cases eq⟩
  · next after =>
    have := length_leadingMultipliers after
    simp only [Core.withMultipliers, Option.some.injEq, Prod.mk.injEq] at h
    rw [← h.1, ← h.2]
    exact ⟨by simp only [List.length_cons]; omega, fun inner eq => by cases eq⟩
  · next after =>
    have inside := length_bracketed 0 after
    have := length_leadingMultipliers (bracketed 0 after).2
    simp only [Core.withMultipliers, Option.some.injEq, Prod.mk.injEq] at h
    rw [← h.1, ← h.2]
    refine ⟨by simp only [List.length_cons]; omega, fun inner eq => ?_⟩
    simp only [Core.brackets.injEq] at eq
    rw [← eq]
    simp only [List.length_cons]
    omega
  · cases h

/-- The operands of a run without delimiters, or the lexeme that is none. -/
def parts (items : List Lexeme) : Except Lexeme (List Part) :=
  match items with
  | [] => .ok []
  | x :: more =>
    match _found : nextPart? (x :: more) with
    | none => .error x
    | some (part, rest) => (parts rest).map (part :: ·)
termination_by items.length
decreasing_by
  have := (nextPart?_shorter _found).1
  simp only [List.length_cons] at *
  omega

theorem operands_ne_nil (delimiter : Lexeme) (depth : Nat) (items : List Lexeme) :
    operands delimiter depth items ≠ [] := by
  cases items with
  | nil => simp [operands]
  | cons x rest =>
    unfold operands
    split
    · simp
    · unfold consFirst
      split <;> simp

theorem length_of_mem_operands {delimiter : Lexeme} {depth : Nat} {items run : List Lexeme}
    (h : run ∈ operands delimiter depth items) :
    run.length + (operands delimiter depth items).length ≤ items.length + 1 := by
  induction items generalizing depth run with
  | nil =>
    simp only [operands, List.mem_singleton] at h
    simp [operands, h]
  | cons x rest ih =>
    unfold operands at h ⊢
    split at h
    · next cut =>
      rw [if_pos cut]
      rcases List.mem_cons.1 h with rfl | later
      · obtain ⟨first, member⟩ := List.exists_mem_of_ne_nil _ (operands_ne_nil delimiter 0 rest)
        have := ih member
        simp only [List.length_cons, List.length_nil]
        omega
      · have := ih later
        simp only [List.length_cons]
        omega
    · next uncut =>
      rw [if_neg uncut]
      cases runs : operands delimiter (depthAfter depth x) rest with
      | nil => exact absurd runs (operands_ne_nil _ _ _)
      | cons first others =>
        rw [runs] at h
        simp only [consFirst, List.mem_cons] at h
        rcases h with rfl | later
        · have := ih (runs ▸ List.mem_cons_self)
          rw [runs] at this
          simp only [consFirst, List.length_cons] at this ⊢
          omega
        · have := ih (runs ▸ List.mem_cons_of_mem _ later)
          rw [runs] at this
          simp only [consFirst, List.length_cons] at this ⊢
          omega

theorem split?_shorter {items : List Lexeme} {kind : Combinator × Lexeme}
    {runs : List (List Lexeme)} (h : split? items = some (kind, runs)) :
    ∀ run ∈ runs, run.length < items.length := by
  obtain ⟨candidate, -, found⟩ := List.exists_of_findSome?_eq_some h
  simp only [Option.ite_none_right_eq_some, Option.some.injEq, Prod.mk.injEq] at found
  obtain ⟨enough, rfl, rfl⟩ := found
  intro run member
  have := length_of_mem_operands member
  omega

theorem parts_shorter {items : List Lexeme} {found : List Part} (h : parts items = .ok found) :
    ∀ part ∈ found, ∀ inner, part.core = .brackets inner → inner.length < items.length := by
  fun_induction parts items generalizing found with
  | case1 =>
    cases h
    simp
  | case2 => cases h
  | case3 x more part rest next ih =>
    cases later : parts rest with
    | error item =>
      rw [later] at h
      cases h
    | ok others =>
      rw [later] at h
      cases h
      obtain ⟨shorter, within⟩ := nextPart?_shorter next
      intro other member inner eq
      rcases List.mem_cons.1 member with rfl | member
      · exact within inner eq
      · exact Nat.lt_trans (ih later other member inner eq) shorter

def ofBalanced (items : List Lexeme) : Except Malformation Tree :=
  match _cut : split? items with
  | some ((combinator, delimiter), runs) =>
    if runs.any List.isEmpty then .error (.dangling delimiter items)
    else (runs.attach.mapM fun run => ofBalanced run.1).map (group combinator)
  | none =>
    match _read : parts items with
    | .error item => .error (.unexpected item items)
    | .ok found =>
      let trees : Except Malformation (List Tree) := found.attach.mapM fun part =>
        let core : Except Malformation Tree :=
          match _core : part.1.core with
          | .token text => .ok (token text)
          | .slash => .ok (separator .slash)
          | .brackets inner => ofBalanced inner
        core.map (underMultipliers · part.1.multipliers)
      trees.map ofSequence
termination_by items.length
decreasing_by
  · exact split?_shorter _cut run.1 run.2
  · exact parts_shorter _read part.1 part.2 inner _core

def ofLexemes (items : List Lexeme) : Except Malformation Tree :=
  if isBalanced 0 items then ofBalanced items else .error (.unbalanced items)

end ValueGrammar.Tree
