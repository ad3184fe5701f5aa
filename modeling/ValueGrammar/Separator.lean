import ValueGrammar.Unicode.Blank

/-!
Separators stand between two neighbours: between the fragments of a value and between the tokens
of a variant. `Separator.join` writes a run of texts with its separators.
-/
namespace ValueGrammar

open Unicode

inductive Separator where
  | space | comma | slash
  deriving DecidableEq, Repr

namespace Separator

def all : List Separator := [.space, .comma, .slash]

def text : Separator → String
  | .space => " "
  | .comma => ", "
  | .slash => " / "

def name : Separator → String
  | .space => "space"
  | .comma => "comma"
  | .slash => "slash"

/-- The bit that stands for a separator in a set of separators. -/
def bit : Separator → Nat
  | .space => 1
  | .comma => 2
  | .slash => 4

/-- The separator that a character stands for in a value. -/
def ofChar? (c : Char) : Option Separator :=
  if c = ',' then some .comma
  else if c = '/' then some .slash
  else if isBlank c then some .space
  else none

/-- The separator of a boundary at which one more separator is met: blanks around a comma or a
slash do not change it. -/
def merge (previous : Option Separator) (next : Separator) : Separator :=
  match previous, next with
  | some previous, .space => previous
  | _, next => next

/-- Texts joined by the separators between them. Where separators are missing, a space stands. -/
def join : List String → List Separator → String
  | [], _ => ""
  | [text], _ => text
  | text :: texts, separators =>
    text ++ (separators.headD .space).text ++ join texts separators.tail

end Separator

end ValueGrammar
