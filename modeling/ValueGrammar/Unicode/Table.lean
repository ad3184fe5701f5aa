/-!
Sets of characters given as tables of code point intervals, the form in which the
Unicode character database publishes its properties.
-/
namespace ValueGrammar.Unicode

/-- Inclusive intervals of code points. -/
abbrev Table := List (Nat × Nat)

def Table.contains (table : Table) (c : Char) : Bool :=
  table.any fun interval => interval.1 ≤ c.toNat && c.toNat ≤ interval.2

theorem Table.contains_iff {table : Table} {c : Char} :
    table.contains c = true ↔ ∃ interval ∈ table, interval.1 ≤ c.toNat ∧ c.toNat ≤ interval.2 := by
  simp [Table.contains]

end ValueGrammar.Unicode
