import ValueGrammar.Proofs.Value.Cutting

/-!
The top level of a text. A place is at the top level if all quotes before it are closed and no
parenthesis outside them is open. `Unquoted` and `openParentheses` say what is outside quotes and how
many parentheses are open one after the other, without a state that carries both; a scanner is outside
quotes and parentheses exactly at the top level.
-/
namespace ValueGrammar.Fragments

/-- The characters of a text outside its quotes, where the text opens no quote that it does not
close. A quote ends at the next quote of the same kind. -/
inductive Unquoted : List Char → List Char → Prop
  | nil : Unquoted [] []
  | plain {c : Char} {cs outside : List Char} (plain : isQuote c = false)
      (later : Unquoted cs outside) : Unquoted (c :: cs) (c :: outside)
  | quoted {quote : Char} {inside cs outside : List Char} (opens : isQuote quote = true)
      (absent : quote ∉ inside) (later : Unquoted cs outside) :
      Unquoted (quote :: (inside ++ quote :: cs)) outside

def parenthesesAfter (depth : Nat) (c : Char) : Nat :=
  if c = '(' then depth + 1 else if c = ')' then depth - 1 else depth

def openParentheses (cs : List Char) : Nat :=
  cs.foldl parenthesesAfter 0

/-- Behind such a text a character is at the top level: outside quotes and at depth zero. -/
def EndsAtTopLevel (before : List Char) : Prop :=
  ∃ outside, Unquoted before outside ∧ openParentheses outside = 0

theorem after_inside_quote {quote : Char} {cs : List Char} (absent : quote ∉ cs) (depth : Nat) :
    (Nesting.mk (some quote) depth).after cs = ⟨some quote, depth⟩ := by
  induction cs with
  | nil => rfl
  | cons c cs ih =>
    obtain ⟨different, later⟩ := not_or.mp (List.mem_cons.not.mp absent)
    have stays : (Nesting.mk (some quote) depth).advance c = ⟨some quote, depth⟩ :=
      if_neg fun same => different same.symm
    change ((Nesting.mk (some quote) depth).advance c).after cs = _
    rw [stays]
    exact ih later

theorem advance_plain {c : Char} (plain : isQuote c = false) (depth : Nat) :
    (Nesting.mk none depth).advance c = ⟨none, parenthesesAfter depth c⟩ := by
  unfold Nesting.advance parenthesesAfter
  simp only [plain, Bool.false_eq_true, if_false]
  split
  · rfl
  · split <;> rfl

theorem advance_opening {quote : Char} (opens : isQuote quote = true) (depth : Nat) :
    (Nesting.mk none depth).advance quote = ⟨some quote, depth⟩ := by
  simp [Nesting.advance, opens]

theorem advance_closing (quote : Char) (depth : Nat) :
    (Nesting.mk (some quote) depth).advance quote = ⟨none, depth⟩ :=
  if_pos rfl

/-- A scanner counts the parentheses outside quotes. -/
theorem after_of_unquoted {cs outside : List Char} (unquoted : Unquoted cs outside) (depth : Nat) :
    (Nesting.mk none depth).after cs = ⟨none, outside.foldl parenthesesAfter depth⟩ := by
  induction unquoted generalizing depth with
  | nil => rfl
  | @plain c cs outside plain _ ih =>
    change ((Nesting.mk none depth).advance c).after cs = _
    rw [advance_plain plain, ih]
    rfl
  | @quoted quote inside cs outside opens absent _ ih =>
    change ((Nesting.mk none depth).advance quote).after (inside ++ quote :: cs) = _
    rw [advance_opening opens, Nesting.after_append, after_inside_quote absent]
    change ((Nesting.mk (some quote) depth).advance quote).after cs = _
    rw [advance_closing, ih]

theorem exists_unquoted {cs : List Char} {depth : Nat}
    (closed : ((Nesting.mk none depth).after cs).quote? = none) : ∃ outside, Unquoted cs outside := by
  induction size : cs.length using Nat.strongRecOn generalizing cs depth with
  | ind n ih =>
    subst size
    cases cs with
    | nil => exact ⟨[], .nil⟩
    | cons c cs =>
      change (((Nesting.mk none depth).advance c).after cs).quote? = none at closed
      cases kind : isQuote c with
      | false =>
        rw [advance_plain kind] at closed
        obtain ⟨outside, later⟩ := ih cs.length (Nat.lt_succ_self _) closed rfl
        exact ⟨c :: outside, .plain kind later⟩
      | true =>
        rw [advance_opening kind] at closed
        by_cases again : c ∈ cs
        · obtain ⟨inside, behind, rfl, absent⟩ := List.eq_append_cons_of_mem again
          rw [Nesting.after_append, after_inside_quote absent] at closed
          change (((Nesting.mk (some c) depth).advance c).after behind).quote? = none at closed
          rw [advance_closing] at closed
          obtain ⟨outside, later⟩ := ih behind.length (by simp; omega) closed rfl
          exact ⟨outside, .quoted kind absent later⟩
        · rw [after_inside_quote again] at closed
          cases closed

/-- A scanner is outside quotes and parentheses where the top level is. -/
theorem closed_iff_endsAtTopLevel {cs : List Char} : Closed cs ↔ EndsAtTopLevel cs := by
  constructor
  · intro closed
    obtain ⟨outside, unquoted⟩ := exists_unquoted (congrArg Nesting.quote? closed)
    have counted := after_of_unquoted unquoted 0
    exact ⟨outside, unquoted, congrArg Nesting.depth (counted.symm.trans closed)⟩
  · intro topLevel
    obtain ⟨outside, unquoted, balanced⟩ := topLevel
    exact (after_of_unquoted unquoted 0).trans (congrArg (Nesting.mk none) balanced)

end ValueGrammar.Fragments
