/-!
Lexemes of value grammars and how a run of them is written.
-/
namespace ValueGrammar

/-- How often an operand may stand in a row. Without a greatest count it may stand any number of
times; `comma` says that commas are put between the repetitions. -/
structure Multiplier where
  min : Nat
  max? : Option Nat
  comma : Bool
  deriving DecidableEq, Repr

namespace Multiplier

def optional : Multiplier := ⟨0, some 1, false⟩

def zeroOrMore : Multiplier := ⟨0, none, false⟩

def oneOrMore : Multiplier := ⟨1, none, false⟩

def commaList : Multiplier := ⟨1, none, true⟩

/-- The counts of a multiplier between braces; equal bounds are written once. -/
def braces (m : Multiplier) : String :=
  let bounds :=
    match m.max? with
    | none => m.min.repr ++ ","
    | some max => if max = m.min then m.min.repr else m.min.repr ++ "," ++ max.repr
  "\x7b" ++ bounds ++ "\x7d"

def text (m : Multiplier) : String :=
  if m = optional then "?"
  else if m = zeroOrMore then "*"
  else if m = oneOrMore then "+"
  else if m = commaList then "#"
  else (if m.comma then "#" else "") ++ m.braces

end Multiplier

/-- The smallest parts of a grammar. A token is kept as it is written: a keyword, a reference
between angle brackets or a call. -/
inductive Lexeme where
  | token (text : String)
  | opening
  | closing
  | bar
  | doubleBar
  | doubleAmpersand
  | comma
  | slash
  | multiplier (m : Multiplier)
  deriving DecidableEq, Repr

namespace Lexeme

def text : Lexeme → String
  | token text => text
  | opening => "["
  | closing => "]"
  | bar => "|"
  | doubleBar => "||"
  | doubleAmpersand => "&&"
  | comma => ","
  | slash => "/"
  | multiplier m => m.text

/-- Multipliers and commas stand directly behind the lexeme before them. -/
def isAttached : Lexeme → Bool
  | multiplier _ => true
  | comma => true
  | _ => false

def appendTo (written : String) (x : Lexeme) : String :=
  if x.isAttached || written.isEmpty then written ++ x.text else written ++ " " ++ x.text

/-- The text of a run of lexemes: a space stands before every lexeme that is not attached, unless
nothing has been written yet. -/
def render (xs : List Lexeme) : String :=
  xs.foldl appendTo ""

end Lexeme

end ValueGrammar
