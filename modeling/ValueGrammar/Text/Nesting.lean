/-!
Nesting inside quotes and parentheses, as a scanner meets it from left to right. A quote is
closed only by the same quote character, parentheses inside quotes do not count, and a
parenthesis that closes nothing leaves the depth at zero.
-/
namespace ValueGrammar

/-- Where a scanner stands: the quote it is inside of, and the number of open parentheses. -/
structure Nesting where
  quote? : Option Char
  depth : Nat
  deriving DecidableEq, Repr

def Nesting.outside : Nesting := ⟨none, 0⟩

def isQuote (c : Char) : Bool :=
  c == '"' || c == '\''

/-- The nesting after one more character. -/
def Nesting.advance (nesting : Nesting) (c : Char) : Nesting :=
  match nesting.quote? with
  | some quote => if c = quote then ⟨none, nesting.depth⟩ else nesting
  | none =>
    if isQuote c then ⟨some c, nesting.depth⟩
    else if c = '(' then ⟨none, nesting.depth + 1⟩
    else if c = ')' then ⟨none, nesting.depth - 1⟩
    else nesting

def Nesting.after (nesting : Nesting) (cs : List Char) : Nesting :=
  cs.foldl Nesting.advance nesting

theorem Nesting.after_append (nesting : Nesting) (cs ds : List Char) :
    nesting.after (cs ++ ds) = (nesting.after cs).after ds := by
  simp [Nesting.after, List.foldl_append]

end ValueGrammar
