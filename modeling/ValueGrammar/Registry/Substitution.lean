import ValueGrammar.Lexeme.Reader
import ValueGrammar.Registry.Basic

/-!
Replacing composed references by their definitions.

A definition of more than one lexeme is put between brackets, so that nothing around the
reference binds into it. The ranges of a composed reference are handed down to every typed
reference of its definition, behind the ranges written there. References without a definition
are collected and left in place, and a definition that leads back to itself is refused. Each
definition opened on the way is on the chain and cannot be opened again, which bounds the depth.
-/
namespace ValueGrammar

/-- A grammar without composed references, and the keys without a definition in the order in
which they were met. -/
structure Substitution where
  items : List Lexeme
  unknown : List String
  deriving DecidableEq, Repr

namespace Substitution

def text (substitution : Substitution) : String :=
  Lexeme.render substitution.items

/-- A reference that stays in place is written anew. -/
def keep (reference : Reference) (unknown : List String) : Substitution :=
  ⟨[.token reference.text], unknown⟩

/-- Brackets around more than one lexeme. -/
def enclose (items : List Lexeme) : List Lexeme :=
  if 1 < items.length then .opening :: items ++ [.closing] else items

/-- One more key without a definition, unless it is known to have none. -/
def note (unknown : List String) (key : String) : List String :=
  if key ∈ unknown then unknown else unknown ++ [key]

/-- Every token of a run, with the given ranges behind its own, is replaced by what `visit` makes
of it; the keys without a definition are passed along from token to token. -/
def walk (visit : Reference → List String → Except Error Substitution) (ranges : List Range) :
    List Lexeme → List String → Except Error Substitution
  | [], unknown => .ok ⟨[], unknown⟩
  | .token raw :: rest, unknown => do
    let reference ← Reference.parse raw
    let head ← visit (reference.narrowedBy ranges) unknown
    let tail ← walk visit ranges rest head.unknown
    return ⟨head.items ++ tail.items, tail.unknown⟩
  | item :: rest, unknown => do
    let tail ← walk visit ranges rest unknown
    return ⟨item :: tail.items, tail.unknown⟩

end Substitution

namespace Registry

open Substitution

/-- The number of definitions that are not on a chain. -/
def unopened (registry : Registry) (chain : List String) : Nat :=
  registry.definitions.countP fun definition => !chain.contains definition.key

theorem countP_lt_countP {α : Type} {p q : α → Bool} {xs : List α}
    (imp : ∀ x, p x = true → q x = true) {x : α} (member : x ∈ xs) (inside : q x = true)
    (outside : p x = false) : xs.countP p < xs.countP q := by
  induction xs with
  | nil => cases member
  | cons y ys ih =>
    rw [List.countP_cons, List.countP_cons]
    have atMost := List.countP_mono_left (l := ys) fun x _ => imp x
    rcases List.mem_cons.1 member with rfl | later
    · simp only [inside, outside, if_true, Bool.false_eq_true, if_false]
      omega
    · have less := ih later
      cases here : p y with
      | true =>
        rw [imp y here]
        simp only [if_true]
        omega
      | false =>
        simp only [Bool.false_eq_true, if_false]
        omega

theorem find?_eq_some {registry : Registry} {key : String} {definition : Definition}
    (h : registry.find? key = some definition) :
    definition ∈ registry.definitions ∧ definition.key = key :=
  ⟨List.mem_of_find?_eq_some h, by simpa using List.find?_some h⟩

theorem unopened_lt {registry : Registry} {chain : List String} {key : String}
    {definition : Definition} (found : registry.find? key = some definition)
    (closed : key ∉ chain) : registry.unopened (chain ++ [key]) < registry.unopened chain := by
  obtain ⟨member, rfl⟩ := find?_eq_some found
  refine countP_lt_countP (fun x outside => ?_) member (by simpa using closed) (by simp)
  simp_all

/-- What stands for one reference, where `chain` lists the definitions that are open. -/
def replace (registry : Registry) (chain : List String) (reference : Reference)
    (unknown : List String) : Except Error Substitution :=
  if reference.isKeyword then .ok (keep reference unknown)
  else
    let key := reference.key
    match _found : registry.find? key with
    | none => .ok (keep reference (note unknown key))
    | some definition =>
      if definition.isPrimitive then .ok (keep reference unknown)
      else if _closed : key ∈ chain then .error (.cyclicDefinition key (chain ++ [key]))
      else do
        let items ← Lexeme.ofGrammar definition.grammar
        let inner ← walk (fun reference unknown =>
          replace registry (chain ++ [key]) reference unknown) reference.ranges items unknown
        return ⟨enclose inner.items, inner.unknown⟩
termination_by registry.unopened chain
decreasing_by exact unopened_lt _found _closed

def substitute (registry : Registry) (grammar : String) : Except Error Substitution := do
  let items ← Lexeme.ofGrammar grammar
  walk (registry.replace []) [] items []

/-- The text of a grammar with its composed references replaced; a grammar that names tokens
without a definition is left as it is. -/
def expandText (registry : Registry) (grammar : String) : Except Error String := do
  let substitution ← registry.substitute grammar
  return if substitution.unknown.isEmpty then substitution.text else grammar

end Registry

end ValueGrammar
