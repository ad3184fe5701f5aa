import ValueGrammar.Registry.Basic

/-!
Categories of tokens. A category says which tokens it owns, which fragments of a value stand for
its tokens, and what a menu offers for them. The list of categories of a context is ordered: a
token belongs to the first category that owns it, and fragments are tried in this order.
-/
namespace ValueGrammar

/-- Whether an offer is a keyword or the default of some other token. -/
inductive OfferKind where
  | keyword | token
  deriving DecidableEq, Repr

/-- One entry of a menu: the literal that it puts into the value, the token that it stands for,
and the category of the token. -/
structure Offer where
  value : String
  token : String
  category : String
  kind : OfferKind
  deriving DecidableEq, Repr

structure Category where
  key : String
  /-- Of several categories in one menu the one with the least priority value is shown first. -/
  priority : UInt8
  owns : Registry → String → Bool
  /-- The keys of the tokens that a fragment may stand for, the best first. -/
  classify : Registry → String → List String
  /-- The number that is compared with ranges. -/
  magnitude? : String → Option Number
  offer : Registry → String → Offer

namespace Category

/-- The entry that offers the default of a token, or the key itself if there is none. -/
def defaultOffer (category : String) (registry : Registry) (key : String) : Offer :=
  ⟨(registry.default? key).getD key, key, category, .token⟩

/-- A category given by tables: the keys it owns, and for each fragment it accepts the keys of the
tokens that the fragment may stand for. -/
def ofTable (key : String) (priority : UInt8) (owned : List String)
    (fragments : List (String × List String)) : Category where
  key := key
  priority := priority
  owns _ token := owned.contains token
  classify _ fragment := (fragments.lookup fragment).getD []
  magnitude? _ := none
  offer := defaultOffer key

def find? (categories : List Category) (key : String) : Option Category :=
  categories.find? (·.key == key)

def owner? (categories : List Category) (registry : Registry) (token : String) : Option Category :=
  categories.find? (·.owns registry token)

end Category

end ValueGrammar
