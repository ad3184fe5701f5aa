import Std.Data.TreeMap
import ValueGrammar.Slot.Edit

/-!
Sessions: a context that remembers the expansions it has made. An expansion is remembered under
the text of its grammar, blanks included; errors are not remembered.
-/
namespace ValueGrammar

/-- A context with the expansions remembered so far. -/
structure Session where
  context : Context
  remembered : Std.TreeMap String Expansion

namespace Session

def start (context : Context) : Session := ⟨context, ∅⟩

def size (session : Session) : Nat :=
  session.remembered.size

def clear (session : Session) : Session :=
  { session with remembered := ∅ }

def recalled? (session : Session) (grammar : String) : Option Expansion :=
  if session.context.limits.remembers then session.remembered[grammar]? else none

/-- One more expansion remembered, if the context remembers at all. -/
def remember (session : Session) (grammar : String) (expansion : Expansion) : Session :=
  if session.context.limits.remembers then
    { session with remembered := session.remembered.insert grammar expansion }
  else session

def expand (session : Session) (grammar : String) : Except Error Expansion × Session :=
  match session.recalled? grammar with
  | some expansion => (.ok expansion, session)
  | none =>
    match session.context.expand grammar with
    | .ok expansion => (.ok expansion, session.remember grammar expansion)
    | .error error => (.error error, session)

def form (session : Session) (grammar value : String) : Except Error Form × Session :=
  let (expansion, session) := session.expand grammar
  (expansion >>= Context.structured >>= fun expansion => session.context.formIn expansion value,
    session)

/-- An edit of one slot under a grammar. A slot out of range is refused before the grammar is
looked at. -/
def edit (session : Session) (grammar : String) (fragments : List String) (slot : Nat)
    (text : String) : Except Error String × Session :=
  match checkSlot fragments slot with
  | .error error => (.error error, session)
  | .ok () =>
    let (expansion, session) := session.expand grammar
    (expansion >>= Context.structured >>= fun expansion =>
      session.context.editIn expansion fragments slot text, session)

/-- Two expansions one after the other, and whether the second is the first one recalled. -/
def expandTwice (session : Session) (first second : String) :
    Except Error (Expansion × Expansion × Bool) × Session :=
  match session.expand first with
  | (.error error, session) => (.error error, session)
  | (.ok a, session) =>
    let recalled := (session.recalled? second).isSome && first == second
    match session.expand second with
    | (.error error, session) => (.error error, session)
    | (.ok b, session) => (.ok (a, b, recalled), session)

end Session

end ValueGrammar
