/-!
Decimal numerals: reading digits with an optional point, and writing them back in positional
notation.
-/
namespace ValueGrammar

/-- The number `coefficient / 10 ^ places`, written with `places` digits after the point. -/
structure Decimal where
  coefficient : Nat
  places : Nat
  deriving DecidableEq, Repr

namespace Decimal

def ofDigits (whole fraction : List Char) : Decimal :=
  ⟨Nat.ofDigitChars 10 (whole ++ fraction) 0, fraction.length⟩

/-- The longest decimal at the start of a text: digits, which a point and further digits may
follow, or a point followed by digits. -/
def read? (cs : List Char) : Option (Decimal × List Char) :=
  let whole := cs.takeWhile Char.isDigit
  let rest := cs.dropWhile Char.isDigit
  match rest with
  | '.' :: rest =>
    let fraction := rest.takeWhile Char.isDigit
    if whole.isEmpty && fraction.isEmpty then none
    else some (ofDigits whole fraction, rest.dropWhile Char.isDigit)
  | _ => if whole.isEmpty then none else some (ofDigits whole [], rest)

theorem read?_shorter {cs : List Char} {d : Decimal} {rest : List Char}
    (h : read? cs = some (d, rest)) : rest.length < cs.length := by
  have whole := List.takeWhile_append_dropWhile (p := Char.isDigit) (l := cs)
  have total := congrArg List.length whole
  rw [List.length_append] at total
  simp only [read?] at h
  split at h
  · next after start =>
    rw [start, List.length_cons] at total
    have := (List.dropWhile_suffix Char.isDigit (l := after)).length_le
    split at h
    · cases h
    · simp only [Option.some.injEq, Prod.mk.injEq] at h
      rw [← h.2]
      omega
  · split at h
    · cases h
    · next digits =>
      have := List.length_pos_iff.2 (fun none => digits (List.isEmpty_iff.2 none))
      simp only [Option.some.injEq, Prod.mk.injEq] at h
      rw [← h.2]
      omega

/-- The digits of a fraction, filled up with zeros to the left. -/
def fractionDigits (places value : Nat) : List Char :=
  let digits := Nat.toDigits 10 value
  List.replicate (places - digits.length) '0' ++ digits

/-- Positional notation; the point is left out when no place follows it. -/
def chars (d : Decimal) : List Char :=
  if d.places = 0 then Nat.toDigits 10 d.coefficient
  else
    Nat.toDigits 10 (d.coefficient / Nat.pow 10 d.places) ++
      '.' :: fractionDigits d.places (d.coefficient % Nat.pow 10 d.places)

/-- The same number without zeros at the end of its fraction. -/
def trimmed (coefficient : Nat) : Nat → Decimal
  | 0 => ⟨coefficient, 0⟩
  | places + 1 =>
    if coefficient % 10 = 0 then trimmed (coefficient / 10) places else ⟨coefficient, places + 1⟩

end Decimal

end ValueGrammar
