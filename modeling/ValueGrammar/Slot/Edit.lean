import ValueGrammar.Slot.Form

/-!
Editing one slot of a value. The edited fragments are matched without separators, since the
matched variant brings its own. If they match nothing, the fragments behind the edited slot are
given up and matching is tried once more.
-/
namespace ValueGrammar

/-- Whether a value was refused because of its fragments. -/
def Error.isMismatch : Error → Bool
  | .noMatchingVariant _ => true
  | .unclassifiable _ => true
  | _ => false

/-- Fragments with one of them replaced, or one more behind the last. A blank text removes the
fragment and all behind it. -/
def editedFragments (fragments : List String) (slot : Nat) (text : String) : List String :=
  let trimmed := fragments.map Text.trim
  let text := Text.trim text
  if text.isEmpty then trimmed.take slot else trimmed.take slot ++ text :: trimmed.drop (slot + 1)

/-- The last slot that an edit may name is the one behind the last fragment. -/
def checkSlot (fragments : List String) (slot : Nat) : Except Error Unit :=
  if fragments.length < slot then .error (.slotOutOfRange slot fragments.length) else .ok ()

namespace Context

/-- The value completed from fragments under an expansion. -/
def completed (context : Context) (expansion : Expansion) (fragments : List String) :
    Except Error String := do
  let draft ← context.draft fragments none
  let form ← context.formOf expansion draft
  return form.value

/-- An edit under an expansion. A value without fragments is empty, whatever the grammar. -/
def editIn (context : Context) (expansion : Expansion) (fragments : List String) (slot : Nat)
    (text : String) : Except Error String :=
  let edited := editedFragments fragments slot text
  if edited.isEmpty then .ok ""
  else
    match context.completed expansion edited with
    | .ok value => .ok value
    | .error error =>
      if error.isMismatch && slot + 1 < edited.length then
        context.completed expansion (edited.take (slot + 1))
      else .error error

def edit (context : Context) (grammar : String) (fragments : List String) (slot : Nat)
    (text : String) : Except Error String := do
  checkSlot fragments slot
  let expansion ← structured (← context.expand grammar)
  context.editIn expansion fragments slot text

end Context

end ValueGrammar
