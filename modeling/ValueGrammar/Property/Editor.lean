import ValueGrammar.Property.Table
import ValueGrammar.Session

/-!
Editors: a session bound to the grammar of one property.
-/
namespace ValueGrammar

inductive EditorError where
  /-- There is no property with the name. -/
  | unknownProperty (name : String)
  /-- The grammar or the value is refused. -/
  | grammar (cause : Error)
  deriving DecidableEq, Repr

def EditorError.message : EditorError → String
  | unknownProperty name => s!"Unknown style property: {name}"
  | grammar cause => "Grammar error: " ++ cause.message

structure Editor where
  property : Property
  deriving DecidableEq, Repr

namespace Editor

def forName (name : String) : Except EditorError Editor :=
  match Property.find? name with
  | some property => .ok ⟨property⟩
  | none => .error (.unknownProperty name)

/-- The cause of an error in an editor is the error itself. -/
def lift {α : Type} (outcome : Except Error α × Session) : Except EditorError α × Session :=
  (outcome.1.mapError .grammar, outcome.2)

def expansion (editor : Editor) (session : Session) : Except EditorError Expansion × Session :=
  lift (session.expand editor.property.grammar)

def form (editor : Editor) (session : Session) (value : String) :
    Except EditorError Form × Session :=
  lift (session.form editor.property.grammar value)

def apply (editor : Editor) (session : Session) (value : String) (slot : Nat) (text : String) :
    Except EditorError String × Session :=
  lift (session.edit editor.property.grammar (Fragments.ofValue value).texts slot text)

end Editor

end ValueGrammar
