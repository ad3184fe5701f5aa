import ValueGrammar.Expansion
import ValueGrammar.Value.Classification
import ValueGrammar.Value.Fragments

/-!
Matching drafts with the variants of a grammar. A draft is what has been typed so far. A variant
fits a draft when its first places accept the fragments one by one and, if the separators between
the fragments are known, it has the same ones. A variant that the draft fills is preferred to a
longer one.
-/
namespace ValueGrammar

/-- A fragment with what it may stand for. -/
structure DraftFragment where
  text : String
  classification : Classification
  deriving DecidableEq, Repr

/-- What has been typed so far. The separators are known when the fragments come from a value;
without them those of any variant are right. -/
structure Draft where
  fragments : List DraftFragment
  separators? : Option (List Separator)
  deriving DecidableEq, Repr

namespace Draft

def length (draft : Draft) : Nat :=
  draft.fragments.length

/-- The number of boundaries between fragments. -/
def boundaries (draft : Draft) : Nat :=
  draft.length - 1

def take (draft : Draft) (count : Nat) : Draft :=
  ⟨draft.fragments.take count, draft.separators?.map (·.take (count - 1))⟩

def texts (draft : Draft) : List String :=
  draft.fragments.map (·.text)

def value (draft : Draft) : String :=
  Separator.join draft.texts (draft.separators?.getD [])

end Draft

def Variant.sameSeparators (variant : Variant) (draft : Draft) : Bool :=
  match draft.separators? with
  | none => true
  | some separators =>
    variant.separators.take draft.boundaries == separators.take draft.boundaries

/-- The variant that a draft has been matched with, and whether the draft fills it. -/
structure Match where
  variant : Variant
  complete : Bool
  deriving DecidableEq, Repr

namespace Context

/-- The draft of fragments; the first fragment that no category accepts is refused. -/
def draft (context : Context) (texts : List String) (separators? : Option (List Separator)) :
    Except Error Draft := do
  let fragments ← texts.mapM fun text => (context.classify text).map (DraftFragment.mk text)
  return ⟨fragments, separators?⟩

/-- The number that a place compares with its range. -/
def magnitude? (context : Context) (key fragment : String) : Option Number :=
  (context.owner? key).bind (·.magnitude? fragment)

/-- Whether a place accepts a fragment: the fragment may stand for its token, and its number, if
there is one, lies in its range. -/
def accepts (context : Context) (place : Place) (fragment : DraftFragment) : Bool :=
  fragment.classification.tokens.contains place.key &&
    match place.range?, context.magnitude? place.key fragment.text with
    | some range, some x => range.contains x
    | _, _ => true

/-- Whether a draft is the beginning of a variant, or all of it. -/
def fits (context : Context) (draft : Draft) (variant : Variant) : Bool :=
  draft.length ≤ variant.length && variant.sameSeparators draft &&
    (variant.places.zip draft.fragments).all fun pair => context.accepts pair.1 pair.2

/-- The first variant that a draft fills, else the first longer one that it begins. -/
def match? (context : Context) (variants : List Variant) (draft : Draft) : Option Match :=
  match variants.find? fun v => v.length == draft.length && context.fits draft v with
  | some variant => some ⟨variant, true⟩
  | none =>
    (variants.find? fun v => draft.length < v.length && context.fits draft v).map
      fun variant => ⟨variant, false⟩

/-- The match of a draft; a draft that no variant fits is refused. -/
def matching (context : Context) (variants : List Variant) (draft : Draft) : Except Error Match :=
  match context.match? variants draft with
  | some found => .ok found
  | none => .error (.noMatchingVariant draft.value)

end Context

end ValueGrammar
