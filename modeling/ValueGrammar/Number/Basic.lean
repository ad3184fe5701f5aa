import ValueGrammar.Number.Decimal

/-!
Numbers of grammars and values: the finite numbers of the 64-bit binary format, with the two
infinities. A finite magnitude counts units of `2 ^ -1074`, the least positive number of the
format, so the order of numbers is the order of integers. Decimals are rounded to the nearest
number, a tie to the one with an even significand.
-/
namespace ValueGrammar

/-- The binary places of a unit. -/
def unitPlaces : Nat := 1074

def unitsPerOne : Nat := Nat.pow 2 unitPlaces

/-- The units of the first power of two that the format cannot hold. -/
def unitsLimit : Nat := Nat.pow 2 2098

/-- The number of low bits that a significand of 53 bits cannot hold. -/
def surplusBits (units : Nat) : Nat :=
  units.log2 + 1 - 53

/-- The format holds the magnitudes below the limit whose surplus bits are zero. -/
def Representable (units : Nat) : Prop :=
  units < unitsLimit ∧ units % Nat.pow 2 (surplusBits units) = 0

instance (units : Nat) : Decidable (Representable units) :=
  inferInstanceAs (Decidable (_ ∧ _))

structure Magnitude where
  units : Nat
  representable : Representable units
  deriving DecidableEq, Repr

/-- A number of the format. Zero keeps its sign. -/
inductive Number where
  | negInf
  | finite (negative : Bool) (magnitude : Magnitude)
  | posInf
  deriving DecidableEq, Repr

/-- The integer nearest to a quotient, a tie to the even one. -/
def roundHalfEven (numerator denominator : Nat) : Nat :=
  let quotient := numerator / denominator
  let rest := numerator % denominator
  if 2 * rest < denominator ∨ (2 * rest = denominator ∧ quotient % 2 = 0) then quotient
  else quotient + 1

/-- The units nearest to a quotient among those with at most 53 significant bits. -/
def roundToUnits (numerator denominator : Nat) : Nat :=
  let scaled := numerator * unitsPerOne
  let grain := Nat.pow 2 (surplusBits (scaled / denominator))
  roundHalfEven scaled (denominator * grain) * grain

namespace Number

/-- The number nearest to a signed decimal; one past the greatest number becomes infinite. -/
def ofDecimal (negative : Bool) (d : Decimal) : Number :=
  let units := roundToUnits d.coefficient (Nat.pow 10 d.places)
  if h : Representable units then .finite negative ⟨units, h⟩
  else if negative then .negInf else .posInf

def signedUnits (negative : Bool) (magnitude : Magnitude) : Int :=
  if negative then -(magnitude.units : Int) else magnitude.units

/-- The order of numbers. The two zeros are equal in it. -/
def le : Number → Number → Bool
  | .negInf, _ => true
  | _, .posInf => true
  | .finite n m, .finite n' m' => signedUnits n m ≤ signedUnits n' m'
  | _, _ => false

instance : LE Number := ⟨fun a b => a.le b = true⟩

instance (a b : Number) : Decidable (a ≤ b) :=
  inferInstanceAs (Decidable (_ = true))

def isZero : Number → Bool
  | .finite _ magnitude => magnitude.units == 0
  | _ => false

def isFinite : Number → Bool
  | .finite _ _ => true
  | _ => false

def max (a b : Number) : Number :=
  if a ≤ b then b else a

def min (a b : Number) : Number :=
  if a ≤ b then a else b

/-- A number pulled up to `low` or down to `high` when it lies outside them. -/
def clamp (low high a : Number) : Number :=
  if low ≤ a then (if a ≤ high then a else high) else low

end Number

end ValueGrammar
