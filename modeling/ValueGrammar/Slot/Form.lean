import ValueGrammar.Slot.Match

/-!
Forms: a draft completed to a value, with a menu for every slot. The matched variant says how the
value goes on: its further places are filled with defaults, pulled into their ranges. The menu of
a slot holds what the variants allow there behind the fragments before it; the slot behind the
last fragment is there if its menu is not empty.
-/
namespace ValueGrammar

/-- A completed draft and the menus of its slots. -/
structure Form where
  variant : Variant
  /-- The draft fills the variant. -/
  complete : Bool
  /-- The fragments of the draft, then the defaults of the missing ones. -/
  fragments : List String
  menus : List (List Offer)
  deriving DecidableEq, Repr

namespace Form

def separators (form : Form) : List Separator :=
  form.variant.separators

def value (form : Form) : String :=
  Separator.join form.fragments form.separators

end Form

/-- A literal whose number is pulled into a range. It stays as it is when it has no number, when
its number lies in the range, when the range is empty and when the nearest bound is infinite. -/
def Range.fit (range : Range) (literal : String) : String :=
  match Number.read? literal.toList with
  | some (x, unit) =>
    let clamped := Number.clamp range.min range.max x
    if range.min ≤ range.max ∧ ¬range.contains x ∧ clamped.isFinite then
      clamped.text ++ String.ofList unit
    else literal
  | none => literal

/-- Whether a menu does not hold an offer yet. A keyword is compared by its literal, any other
token by its category. -/
def Offer.isFresh (menu : List Offer) (offer : Offer) : Bool :=
  menu.all fun other =>
    match offer.kind, other.kind with
    | .keyword, .keyword => other.value != offer.value
    | .token, .token => other.category != offer.category
    | _, _ => true

/-- A menu of the fresh ones among some offers. -/
def Offer.menu (offers : List Offer) : List Offer :=
  offers.foldl (fun menu offer => if offer.isFresh menu then menu ++ [offer] else menu) []

namespace Context

/-- The literal for a place that has not been typed. -/
def filler (context : Context) (place : Place) : Except Error String :=
  match context.registry.default? place.key with
  | none => .error (.missingDefault place.key)
  | some literal =>
    match place.range? with
    | some range => .ok (range.fit literal)
    | none => .ok literal

def offerAt? (context : Context) (position : Nat) (variant : Variant) : Option Offer :=
  variant.places[position]?.bind fun place =>
    (context.owner? place.key).map fun category => category.offer context.registry place.key

/-- The menu of the slot behind a draft. -/
def menu (context : Context) (variants : List Variant) (draft : Draft) : List Offer :=
  Offer.menu ((variants.filter (context.fits draft)).filterMap (context.offerAt? draft.length))

def menus (context : Context) (variants : List Variant) (draft : Draft) : List (List Offer) :=
  let occupied := (List.range draft.length).map fun i => context.menu variants (draft.take i)
  match context.menu variants draft with
  | [] => occupied
  | next => occupied ++ [next]

def formOf (context : Context) (expansion : Expansion) (draft : Draft) : Except Error Form := do
  let found ← context.matching expansion.variants draft
  let fillers ← (found.variant.places.drop draft.length).mapM context.filler
  return {
    variant := found.variant
    complete := found.complete
    fragments := draft.texts ++ fillers
    menus := context.menus expansion.variants draft }

/-- The form of a value under an expansion. -/
def formIn (context : Context) (expansion : Expansion) (value : String) : Except Error Form := do
  let fragments := Fragments.ofValue value
  let draft ← context.draft fragments.texts (some fragments.separators)
  context.formOf expansion draft

def form (context : Context) (grammar value : String) : Except Error Form := do
  let expansion ← structured (← context.expand grammar)
  context.formIn expansion value

end Context

end ValueGrammar
