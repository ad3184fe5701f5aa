import ValueGrammar.Separator
import ValueGrammar.Text.Nesting
import ValueGrammar.Text.Trim

/-!
Values as fragments. A value is cut at the separators that stand outside quotes and parentheses;
what remains between two cuts, without the blanks around it, is a fragment. A blank next to a
comma or a slash belongs to it.
-/
namespace ValueGrammar

/-- The fragments of a value and the separators between them. -/
structure Fragments where
  texts : List String
  separators : List Separator
  deriving DecidableEq, Repr

namespace Fragments

def length (fragments : Fragments) : Nat :=
  fragments.texts.length

def value (fragments : Fragments) : String :=
  Separator.join fragments.texts fragments.separators

/-- The separator at which a character cuts a value: one of the boundaries, outside quotes and
parentheses. -/
def boundary? (boundaries : List Separator) (nesting : Nesting) (c : Char) : Option Separator :=
  if nesting = Nesting.outside then (Separator.ofChar? c).filter boundaries.contains else none

/-- The characters up to the first cut, and for every cut its separator with the characters up to
the next one. -/
def cut (boundaries : List Separator) (nesting : Nesting) :
    List Char → List Char × List (Separator × List Char)
  | [] => ([], [])
  | c :: rest =>
    match boundary? boundaries nesting c with
    | some s =>
      let behind := cut boundaries nesting rest
      ([], (s, behind.1) :: behind.2)
    | none =>
      let behind := cut boundaries (nesting.advance c) rest
      (c :: behind.1, behind.2)

/-- The fragments behind a first one, each with the separator before it. Where nothing but blanks
stands between two cuts, their separators are merged; `pending` is the separator so far. -/
def follow (pending : Option Separator) :
    List (Separator × List Char) → List (Separator × List Char)
  | [] => []
  | (s, run) :: rest =>
    let merged := Separator.merge pending s
    match Text.trimChars run with
    | [] => follow (some merged) rest
    | fragment => (merged, fragment) :: follow none rest

/-- The fragments of a run and of the runs behind it. Separators before the first fragment are
dropped. -/
def collect (run : List Char) (rest : List (Separator × List Char)) : Fragments :=
  match Text.trimChars run with
  | [] =>
    let found := follow none rest
    ⟨found.map (String.ofList ·.2), (found.map (·.1)).tail⟩
  | fragment =>
    let found := follow none rest
    ⟨String.ofList fragment :: found.map (String.ofList ·.2), found.map (·.1)⟩

/-- The fragments of a value, cut at the given separators. -/
def split (boundaries : List Separator) (value : String) : Fragments :=
  let runs := cut boundaries Nesting.outside value.toList
  collect runs.1 runs.2

def ofValue (value : String) : Fragments :=
  split Separator.all value

end Fragments

end ValueGrammar
