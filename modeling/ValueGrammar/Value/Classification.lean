import ValueGrammar.Context
import ValueGrammar.Text.Trim

/-!
What a fragment stands for. Every category is asked in order; the first one that accepts the
fragment gives the best guess, and all of them together give the tokens it may stand for.
-/
namespace ValueGrammar

/-- What a fragment may stand for. -/
structure Classification where
  /-- The first category that accepts the fragment. -/
  category : String
  /-- The best guess. -/
  best : String
  /-- The keys of all tokens that the fragment may stand for, the best guess first. -/
  tokens : List String
  deriving DecidableEq, Repr

namespace Context

/-- The categories that accept a fragment, each with the tokens it takes it for. -/
def accepting (context : Context) (fragment : String) : List (String × List String) :=
  (context.categories.map fun category =>
    (category.key, category.classify context.registry fragment)).filter (!·.2.isEmpty)

def classify (context : Context) (fragment : String) : Except Error Classification :=
  let fragment := Text.trim fragment
  match context.accepting fragment with
  | (category, token :: tokens) :: others =>
    .ok ⟨category, token, ((token :: tokens) ++ others.flatMap (·.2)).eraseDups⟩
  | _ => .error (.unclassifiable fragment)

/-- The best guesses for fragments; those that no category accepts are left out. -/
def bestGuesses (context : Context) (fragments : List String) : List String :=
  fragments.filterMap fun fragment => (context.classify fragment).toOption.map (·.best)

/-- The priority value of a category; one that the context does not know comes last. -/
def priority (context : Context) (category : String) : UInt8 :=
  match Category.find? context.categories category with
  | some category => category.priority
  | none => 255

/-- The category with the least priority value, the first of several. -/
def defaultCategory? (context : Context) : List String → Option String
  | [] => none
  | category :: others =>
    match context.defaultCategory? others with
    | none => some category
    | some other =>
      some (if context.priority category ≤ context.priority other then category else other)

end Context

end ValueGrammar
