import ValueGrammar.Proofs.Number.RoundTrip

/-!
Numerals: what numbers are read from. A numeral is an optional sign, digits, and a point with further
digits, of which either may be missing but not all digits. Reading a number takes the numeral at the
start of a text and gives the number nearest to it.
-/
namespace ValueGrammar

open Text

inductive Sign where
  | none | plus | minus
  deriving DecidableEq, Repr

def Sign.chars : Sign → List Char
  | none => []
  | plus => ['+']
  | minus => ['-']

/-- A sign, digits, and the digits behind a point, if there is one. There is some digit. -/
structure Numeral where
  sign : Sign
  whole : List Char
  fraction? : Option (List Char)
  digits : ∀ c ∈ whole ++ fraction?.getD [], c.isDigit = true
  nonempty : whole ++ fraction?.getD [] ≠ []

namespace Numeral

def unsigned (n : Numeral) : List Char :=
  n.whole ++ (n.fraction?.map ('.' :: ·)).getD []

def chars (n : Numeral) : List Char :=
  n.sign.chars ++ n.unsigned

def decimal (n : Numeral) : Decimal :=
  Decimal.ofDigits n.whole (n.fraction?.getD [])

def number (n : Numeral) : Number :=
  Number.ofDecimal (n.sign == .minus) n.decimal

/-- Without its sign a numeral starts with a digit or the point. -/
theorem exists_unsigned (n : Numeral) :
    ∃ c cs, n.unsigned = c :: cs ∧ Decimal.endsNumber c = true := by
  obtain ⟨sign, whole, fraction?, digits, nonempty⟩ := n
  cases whole with
  | cons c cs =>
    refine ⟨c, cs ++ (fraction?.map ('.' :: ·)).getD [], rfl, ?_⟩
    rw [Decimal.endsNumber, digits c (by simp), Bool.true_or]
  | nil =>
    cases fraction? with
    | none => exact absurd rfl nonempty
    | some fraction => exact ⟨'.', fraction, rfl, by decide⟩

/-! ### Reading -/

theorem read?_unsigned (n : Numeral) {rest : List Char} (stop : StopsBefore Decimal.endsNumber rest) :
    Decimal.read? (n.unsigned ++ rest) = some (n.decimal, rest) := by
  have noDigit : StopsBefore Char.isDigit rest := by
    intro c first
    have := stop c first
    simp only [Decimal.endsNumber, Bool.or_eq_false_iff] at this
    exact this.1
  obtain ⟨sign, whole, fraction?, digits, nonempty⟩ := n
  have digitsWhole : ∀ c ∈ whole, c.isDigit = true := fun c member =>
    digits c (List.mem_append_left _ member)
  cases fraction? with
  | none =>
    rw [Option.getD_none, List.append_nil] at nonempty
    simp only [unsigned, Option.map_none, Option.getD_none, List.append_nil, Decimal.read?,
      takeWhile_append_stop digitsWhole noDigit, dropWhile_append_stop digitsWhole noDigit, decimal]
    split
    · have point := stop '.' (by simp)
      cases point
    · rw [if_neg (by simpa using nonempty)]
  | some fraction =>
    have digitsFraction : ∀ c ∈ fraction, c.isDigit = true := fun c member =>
      digits c (List.mem_append_right _ member)
    have atPoint : StopsBefore Char.isDigit ('.' :: (fraction ++ rest)) := .cons (by decide) _
    have some : ¬ (whole.isEmpty && fraction.isEmpty) = true := by
      simpa [List.isEmpty_iff] using nonempty
    simp only [unsigned, Option.map_some, Option.getD_some, List.append_assoc, List.cons_append,
      Decimal.read?, takeWhile_append_stop digitsWhole atPoint,
      dropWhile_append_stop digitsWhole atPoint, takeWhile_append_stop digitsFraction noDigit,
      dropWhile_append_stop digitsFraction noDigit, decimal]
    rw [if_neg some]

/-- A decimal is read from a numeral without a sign. -/
theorem exists_of_read? {cs rest : List Char} {d : Decimal}
    (read : Decimal.read? cs = some (d, rest)) (sign : Sign) :
    ∃ n : Numeral, n.sign = sign ∧ n.decimal = d ∧ cs = n.unsigned ++ rest := by
  have split := List.takeWhile_append_dropWhile (p := Char.isDigit) (l := cs)
  have digits {ds : List Char} : ∀ c ∈ ds.takeWhile Char.isDigit, c.isDigit = true :=
    fun c member => List.mem_takeWhile_imp member
  unfold Decimal.read? at read
  dsimp only at read
  split at read
  · next after point =>
    split at read
    · cases read
    · next nonempty =>
      cases read
      have later := List.takeWhile_append_dropWhile (p := Char.isDigit) (l := after)
      refine ⟨⟨sign, cs.takeWhile Char.isDigit, some (after.takeWhile Char.isDigit), ?_, ?_⟩, rfl,
        rfl, ?_⟩
      · intro c member
        exact (List.mem_append.mp member).elim (digits c) (digits c)
      · simpa [List.isEmpty_iff] using nonempty
      · simp only [unsigned, Option.map_some, Option.getD_some, List.append_assoc, List.cons_append]
        rw [later, ← point, split]
  · split at read
    · cases read
    · next nonempty =>
      cases read
      refine ⟨⟨sign, cs.takeWhile Char.isDigit, none, ?_, ?_⟩, rfl, rfl, ?_⟩
      · simpa using digits
      · simpa [List.isEmpty_iff] using nonempty
      · simp only [unsigned, Option.map_none, Option.getD_none, List.append_nil]
        exact split.symm

/-- A numeral that nothing continues is read as the number nearest to it. -/
theorem read?_chars (n : Numeral) {rest : List Char} (stop : StopsBefore Decimal.endsNumber rest) :
    Number.read? (n.chars ++ rest) = some (n.number, rest) := by
  have unsigned := n.read?_unsigned stop
  obtain ⟨c, cs, spelled, first⟩ := n.exists_unsigned
  cases sign : n.sign with
  | none =>
    have notMinus : c ≠ '-' := by
      rintro rfl
      cases first
    have notPlus : c ≠ '+' := by
      rintro rfl
      cases first
    simp only [chars, number, sign, Sign.chars, List.nil_append]
    rw [spelled] at unsigned ⊢
    unfold Number.read?
    split
    · next eq => exact absurd (List.cons.inj eq).1 notMinus
    · next eq => exact absurd (List.cons.inj eq).1 notPlus
    · rw [unsigned]
      rfl
  | plus =>
    simp only [chars, number, sign, Sign.chars, List.cons_append, List.nil_append, Number.read?,
      unsigned]
    rfl
  | minus =>
    simp only [chars, number, sign, Sign.chars, List.cons_append, List.nil_append, Number.read?,
      unsigned]
    rfl

/-- Every number is read from a numeral. -/
theorem exists_of_readNumber {cs rest : List Char} {x : Number}
    (read : Number.read? cs = some (x, rest)) :
    ∃ n : Numeral, n.number = x ∧ cs = n.chars ++ rest := by
  have found (sign : Sign) {after : List Char} (spelled : cs = sign.chars ++ after)
      (given : (Decimal.read? after).map
        (fun read => (Number.ofDecimal (sign == .minus) read.1, read.2)) = some (x, rest)) :
      ∃ n : Numeral, n.number = x ∧ cs = n.chars ++ rest := by
    obtain ⟨⟨d, behind⟩, decimal, same⟩ := Option.map_eq_some_iff.mp given
    obtain ⟨value, rfl⟩ := Prod.mk.injEq .. ▸ same
    obtain ⟨n, signed, rfl, rfl⟩ := exists_of_read? decimal sign
    refine ⟨n, ?_, ?_⟩
    · rw [number, signed]
      exact value
    · rw [spelled, chars, signed, List.append_assoc]
  unfold Number.read? at read
  split at read
  · exact found .minus rfl read
  · exact found .plus rfl read
  · exact found .none rfl read

end Numeral

end ValueGrammar
