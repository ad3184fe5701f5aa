/-!
Bounds on the expansion of grammars.
-/
namespace ValueGrammar

structure Limits where
  /-- The greatest number of operands of a group in any order. -/
  operands : Nat
  /-- The greatest number of variants kept by any one step. -/
  variants : Nat
  /-- The greatest count of repetitions. -/
  repetitions : Nat
  /-- Whether expansions are remembered. -/
  remembers : Bool
  deriving DecidableEq, Repr

namespace Limits

def standard : Limits := ⟨4, 4096, 4, true⟩

/-- No context accepts more operands in any order than this. -/
def mostOperands : Nat := 8

/-- Bounds with the number of operands brought below the ceiling. -/
def capped (limits : Limits) : Limits :=
  { limits with operands := min limits.operands mostOperands }

end Limits

end ValueGrammar
