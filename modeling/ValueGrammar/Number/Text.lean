import ValueGrammar.Number.Basic

/-!
The text of numbers. A finite number is written with the fewest digits that read back to it, in
positional notation; among equally short decimals the nearest is chosen, and of two equally near
the greater. An infinite number is written with the sign `∞`.
-/
namespace ValueGrammar

/-- The decimal equal to a magnitude, with as few places as it has. Five to the power of the
places turns the remaining power of one half into a power of one tenth. -/
def Magnitude.exact (magnitude : Magnitude) : Decimal :=
  let power := Nat.gcd magnitude.units unitsPerOne
  let places := unitPlaces - power.log2
  ⟨magnitude.units / power * Nat.pow 5 places, places⟩

def Magnitude.isReadFrom (magnitude : Magnitude) (d : Decimal) : Bool :=
  roundToUnits d.coefficient (Nat.pow 10 d.places) == magnitude.units

/-- The decimal with the given number of digits that reads back to the magnitude, if one of the
two neighbours of the magnitude with so many digits does. -/
def Magnitude.withDigits? (magnitude : Magnitude) (digits : Nat) : Option Decimal :=
  let exact := magnitude.exact
  let step := Nat.pow 10 ((Nat.toDigits 10 exact.coefficient).length - digits)
  let low := exact.coefficient / step * step
  let below := Decimal.trimmed low exact.places
  let above := Decimal.trimmed (low + step) exact.places
  let readsBelow := magnitude.isReadFrom below
  let readsAbove := magnitude.isReadFrom above
  if readsBelow && (!readsAbove || 2 * (exact.coefficient - low) < step) then some below
  else if readsAbove then some above
  else none

/-- The shortest decimal that reads back to a magnitude. Seventeen digits are always enough, and
the exact decimal stands behind them. -/
def Magnitude.shortest (magnitude : Magnitude) : Decimal :=
  ((List.range' 1 17).findSome? magnitude.withDigits?).getD magnitude.exact

namespace Number

def text : Number → String
  | .negInf => "-∞"
  | .posInf => "∞"
  | .finite negative magnitude =>
    (if negative then "-" else "") ++ String.ofList magnitude.shortest.chars

/-- The longest number at the start of a text: a decimal that a sign may precede. -/
def read? (cs : List Char) : Option (Number × List Char) :=
  match cs with
  | '-' :: rest => (Decimal.read? rest).map fun read => (ofDecimal true read.1, read.2)
  | '+' :: rest => (Decimal.read? rest).map fun read => (ofDecimal false read.1, read.2)
  | _ => (Decimal.read? cs).map fun read => (ofDecimal false read.1, read.2)

theorem read?_shorter {cs : List Char} {x : Number} {rest : List Char}
    (h : read? cs = some (x, rest)) : rest.length < cs.length := by
  have enough {after : List Char} {negative : Bool} (atMost : after.length ≤ cs.length)
      (read : (Decimal.read? after).map (fun d => (ofDecimal negative d.1, d.2)) = some (x, rest)) :
      rest.length < cs.length := by
    obtain ⟨d, found, eq⟩ := Option.map_eq_some_iff.1 read
    simp only [Prod.mk.injEq] at eq
    rw [← eq.2]
    exact Nat.lt_of_lt_of_le (Decimal.read?_shorter found) atMost
  unfold read? at h
  split at h
  · exact enough (by simp) h
  · exact enough (by simp) h
  · exact enough (Nat.le_refl _) h

end Number

end ValueGrammar
