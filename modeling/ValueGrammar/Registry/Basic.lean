import ValueGrammar.Reference

/-!
Definitions of symbols and registries of them. A registry holds at most one definition for a key.
-/
namespace ValueGrammar

/-- A registered symbol: its key, the grammar it stands for, and the literal that stands in for a
missing fragment. -/
structure Definition where
  key : String
  grammar : String
  default? : Option String
  deriving DecidableEq, Repr

/-- A primitive symbol is defined as itself or by nothing at all; it is never replaced. -/
def Definition.isPrimitive (definition : Definition) : Bool :=
  let grammar := Text.trim definition.grammar
  grammar.isEmpty ||
    match Reference.keyOf grammar with
    | .ok key => key == definition.key
    | .error _ => false

structure Registry where
  definitions : List Definition
  distinct : (definitions.map (·.key)).Nodup
  deriving DecidableEq, Repr

namespace Registry

def empty : Registry := ⟨[], List.nodup_nil⟩

def find? (registry : Registry) (key : String) : Option Definition :=
  registry.definitions.find? (·.key == key)

def contains (registry : Registry) (key : String) : Bool :=
  (registry.find? key).isSome

def size (registry : Registry) : Nat :=
  registry.definitions.length

def sortedKeys (registry : Registry) : List String :=
  (registry.definitions.map (·.key)).mergeSort fun a b => decide (a ≤ b)

theorem nodup_keys_concat {definitions : List Definition} {definition : Definition}
    (distinct : (definitions.map (·.key)).Nodup)
    (fresh : definition.key ∉ definitions.map (·.key)) :
    ((definitions ++ [definition]).map (·.key)).Nodup := by
  rw [List.map_append, List.nodup_append]
  refine ⟨distinct, by simp, fun a old b new => ?_⟩
  simp only [List.map_cons, List.map_nil, List.mem_singleton] at new
  intro given
  subst given
  exact fresh (new ▸ old)

/-- One more definition; a key that is defined already is refused. -/
def register (registry : Registry) (definition : Definition) : Except Error Registry :=
  if fresh : definition.key ∉ registry.definitions.map (·.key) then
    .ok ⟨registry.definitions ++ [definition], nodup_keys_concat registry.distinct fresh⟩
  else .error (.duplicateToken definition.key)

/-- The literal that stands in for a missing fragment. A keyword without a definition stands in
for itself. -/
def default? (registry : Registry) (key : String) : Option String :=
  match registry.find? key with
  | some definition => definition.default?
  | none =>
    match Reference.parse key with
    | .ok (.keyword name) => some name
    | _ => none

end Registry

end ValueGrammar
