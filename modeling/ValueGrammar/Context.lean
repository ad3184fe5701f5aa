import ValueGrammar.Category.Standard
import ValueGrammar.Limits

/-!
Contexts: the registry, the categories and the limits that every operation works with. A builder
collects them, and `Builder.build` refuses what no context may hold.
-/
namespace ValueGrammar

/-- What an expansion and a classification depend on. -/
structure Context where
  registry : Registry
  categories : List Category
  limits : Limits

namespace Context

def standard : Context :=
  ⟨.builtin, Category.standard, .standard⟩

def owner? (context : Context) (key : String) : Option Category :=
  Category.owner? context.categories context.registry key

end Context

structure Builder where
  definitions : List Definition
  categories : List Category
  limits : Limits

namespace Builder

def empty : Builder := ⟨[], [], .standard⟩

/-- The definitions of the built-in catalog, behind those already there. -/
def withCatalog (builder : Builder) : Builder :=
  { builder with definitions := builder.definitions ++ Catalog.definitions }

def withDefinition (builder : Builder) (definition : Definition) : Builder :=
  { builder with definitions := builder.definitions ++ [definition] }

def withCategories (builder : Builder) (categories : List Category) : Builder :=
  { builder with categories := builder.categories ++ categories }

/-- Other limits; the operand limit is brought below its ceiling. -/
def withLimits (builder : Builder) (limits : Limits) : Builder :=
  { builder with limits := limits.capped }

/-- Whether a category other than the one of composed tokens owns a token. -/
def isOwned (builder : Builder) (registry : Registry) (key : String) : Bool :=
  builder.categories.any fun category =>
    category.key != "composed" && category.owns registry key

/-- The context. Two definitions of one key are refused, and a primitive token without an owner
among the categories. -/
def build (builder : Builder) : Except Error Context := do
  let registry ← builder.definitions.foldlM Registry.register Registry.empty
  match registry.definitions.find? fun definition =>
      definition.isPrimitive && !builder.isOwned registry definition.key with
  | some definition => .error (.unownedToken definition.key)
  | none => .ok ⟨registry, builder.categories, builder.limits⟩

end Builder

end ValueGrammar
