import ValueGrammar.Lexeme.Basic
import ValueGrammar.Separator

/-!
Combinator trees: what a grammar means before it is expanded.
-/
namespace ValueGrammar

inductive Combinator where
  /-- `a, b`: all operands in order, with commas between them. -/
  | list
  /-- `a | b`: one operand. -/
  | choice
  /-- `a || b`: one or more operands in any order. -/
  | someOf
  /-- `a && b`: all operands in any order. -/
  | allOf
  /-- `a b`: all operands in order. -/
  | sequence
  deriving DecidableEq, Repr

/-- The combinators with a delimiter between their operands, each with its delimiter; the one
that binds least stands first. -/
def Combinator.delimited : List (Combinator × Lexeme) :=
  [(.list, .comma), (.choice, .bar), (.someOf, .doubleBar), (.allOf, .doubleAmpersand)]

/-- Combinators that put their operands into any order; the number of their operands is limited. -/
def Combinator.isUnordered : Combinator → Bool
  | someOf => true
  | allOf => true
  | _ => false

/-- A combinator tree. Its leaves are tokens and separators. -/
inductive Tree where
  | token (text : String)
  | separator (separator : Separator)
  | group (combinator : Combinator) (children : List Tree)
  | repeated (body : Tree) (multiplier : Multiplier)
  deriving Repr

namespace Tree

/-- Operands in a row. A single operand stands for itself, unless it is a separator. -/
def ofSequence : List Tree → Tree
  | [token text] => token text
  | [group combinator children] => group combinator children
  | [repeated body multiplier] => repeated body multiplier
  | children => group .sequence children

/-- A tree under multipliers, the innermost first. -/
def underMultipliers (tree : Tree) (multipliers : List Multiplier) : Tree :=
  multipliers.foldl repeated tree

end Tree

end ValueGrammar
