import ValueGrammar.Context
import ValueGrammar.Registry.Substitution
import ValueGrammar.Tree.Alternatives
import ValueGrammar.Tree.Reader
import ValueGrammar.Variant

/-!
Expansions: all variants of one grammar. A grammar that names tokens without a definition is
unstructured: it stays as it is, as a single variant of its own text.
-/
namespace ValueGrammar

/-- The variants of a grammar. -/
structure Expansion where
  /-- The grammar without blanks around it. -/
  grammar : String
  variants : List Variant
  unknown : List String
  /-- Variants have been left out to stay within the limits. -/
  truncated : Bool
  deriving DecidableEq, Repr

namespace Expansion

/-- Whether the grammar could be taken apart. -/
def isStructured (expansion : Expansion) : Bool :=
  expansion.unknown.isEmpty

def blank : Expansion := ⟨"", [], [], false⟩

/-- A grammar that is left as it is. -/
def unstructured (grammar : String) (unknown : List String) : Expansion :=
  ⟨grammar, [Variant.verbatim grammar], unknown, false⟩

end Expansion

namespace Context

/-- The tree of lexemes without composed references. -/
def tree (items : List Lexeme) : Except Error Tree :=
  match Tree.ofLexemes items with
  | .ok tree => .ok tree
  | .error cause => .error (.malformed cause)

def alternatives (context : Context) (tree : Tree) : Except Error Alternatives :=
  match tree.excess? context.limits.operands with
  | some operands => .error (.tooManyOperands operands context.limits.operands)
  | none => .ok (tree.alternatives context.limits)

def expand (context : Context) (grammar : String) : Except Error Expansion := do
  let grammar := Text.trim grammar
  if grammar.isEmpty then return Expansion.blank
  let substitution ← context.registry.substitute grammar
  if !substitution.unknown.isEmpty then
    return Expansion.unstructured grammar substitution.unknown
  let tree ← tree substitution.items
  let found ← context.alternatives tree
  let variants ← Variant.ofPieces found.pieces
  return ⟨grammar, variants, [], found.truncated⟩

/-- The expansion of a grammar that can be taken apart. -/
def structured (expansion : Expansion) : Except Error Expansion :=
  if expansion.isStructured then .ok expansion else .error (.unknownTokens expansion.unknown)

end Context

end ValueGrammar
