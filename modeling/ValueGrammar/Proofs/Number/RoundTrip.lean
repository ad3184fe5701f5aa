import Mathlib.Data.Nat.Prime.Basic
import Mathlib.Tactic.Ring
import ValueGrammar.Number.Text
import ValueGrammar.Proofs.Text.Enclosing

/-!
The text of a number is read back as that number. Decimals are read digit by digit; a magnitude is
written by a decimal that rounds to it, either because it was chosen so or because it is exact.
-/
namespace ValueGrammar

open Text

/-! ### Decimals -/

namespace Decimal

theorem isDigit_fractionDigits {places value : Nat} :
    ∀ c ∈ fractionDigits places value, c.isDigit = true := by
  intro c member
  rcases List.mem_append.mp member with padding | digit
  · rw [List.eq_of_mem_replicate padding]
    decide
  · exact Nat.isDigit_of_mem_toDigits (by decide) (by decide) digit

theorem length_fractionDigits {places value : Nat} (positive : 0 < places)
    (fits : value < 10 ^ places) : (fractionDigits places value).length = places := by
  have short : (Nat.toDigits 10 value).length ≤ places :=
    (Nat.length_toDigits_le_iff (by decide) positive).mpr fits
  simp only [fractionDigits, List.length_append, List.length_replicate]
  omega

theorem ofDigitChars_fractionDigits (places value init : Nat) (positive : 0 < places)
    (fits : value < 10 ^ places) :
    Nat.ofDigitChars 10 (fractionDigits places value) init = 10 ^ places * init + value := by
  rw [Nat.ofDigitChars_eq_ofDigitChars_zero, length_fractionDigits positive fits]
  congr 1
  rw [fractionDigits, Nat.ofDigitChars_append, Nat.ofDigitChars_replicate_zero, Nat.mul_zero,
    Nat.ofDigitChars_ten_toDigits]

/-- What may follow a decimal: neither a digit nor a point. -/
def endsNumber (c : Char) : Bool :=
  c.isDigit || c == '.'

theorem read?_whole (value : Nat) {rest : List Char} (stop : StopsBefore endsNumber rest) :
    read? (Nat.toDigits 10 value ++ rest) = some (⟨value, 0⟩, rest) := by
  have digits : ∀ c ∈ Nat.toDigits 10 value, c.isDigit = true :=
    fun c member => Nat.isDigit_of_mem_toDigits (by decide) (by decide) member
  have noDigit : StopsBefore Char.isDigit rest := by
    intro c first
    have := stop c first
    simp only [endsNumber, Bool.or_eq_false_iff] at this
    exact this.1
  simp only [read?, takeWhile_append_stop digits noDigit, dropWhile_append_stop digits noDigit]
  split
  · next after =>
    have point := stop '.' (by simp)
    simp [endsNumber] at point
  · have nonempty : (Nat.toDigits 10 value).isEmpty = false := by
      rw [List.isEmpty_eq_false_iff]
      exact Nat.toDigits_ne_nil
    simp [nonempty, ofDigits]

theorem read?_chars (d : Decimal) {rest : List Char} (stop : StopsBefore endsNumber rest) :
    read? (d.chars ++ rest) = some (d, rest) := by
  unfold chars
  split
  · next whole =>
    rw [read?_whole _ stop]
    cases d
    simp_all
  · next fractional =>
    have positive : 0 < d.places := Nat.pos_of_ne_zero fractional
    have fits : d.coefficient % Nat.pow 10 d.places < 10 ^ d.places :=
      Nat.mod_lt _ (Nat.pow_pos (by decide))
    have digits : ∀ c ∈ Nat.toDigits 10 (d.coefficient / Nat.pow 10 d.places), c.isDigit = true :=
      fun c member => Nat.isDigit_of_mem_toDigits (by decide) (by decide) member
    have noDigit : StopsBefore Char.isDigit rest := by
      intro c first
      have := stop c first
      simp only [endsNumber, Bool.or_eq_false_iff] at this
      exact this.1
    have atPoint : StopsBefore Char.isDigit
        ('.' :: (fractionDigits d.places (d.coefficient % Nat.pow 10 d.places) ++ rest)) :=
      .cons (by decide) _
    have someDigits : (fractionDigits d.places (d.coefficient % Nat.pow 10 d.places)).isEmpty = false := by
      have := length_fractionDigits positive fits
      rw [List.isEmpty_eq_false_iff]
      intro none
      rw [none, List.length_nil] at this
      omega
    simp only [read?, List.append_assoc, List.cons_append, takeWhile_append_stop digits atPoint,
      dropWhile_append_stop digits atPoint, takeWhile_append_stop isDigit_fractionDigits noDigit,
      dropWhile_append_stop isDigit_fractionDigits noDigit, someDigits, Bool.and_false,
      Bool.false_eq_true, if_false, ofDigits, length_fractionDigits positive fits]
    congr 3
    rw [Nat.ofDigitChars_append, Nat.ofDigitChars_ten_toDigits,
      ofDigitChars_fractionDigits _ _ _ positive fits]
    exact Nat.div_add_mod _ _

/-- The first character of a decimal is a digit. -/
theorem chars_head (d : Decimal) : ∃ c cs, d.chars = c :: cs ∧ c.isDigit = true := by
  have first (value : Nat) (more : List Char) :
      ∃ c cs, Nat.toDigits 10 value ++ more = c :: cs ∧ c.isDigit = true := by
    cases digits : Nat.toDigits 10 value with
    | nil => exact absurd digits Nat.toDigits_ne_nil
    | cons c cs =>
      refine ⟨c, cs ++ more, rfl, ?_⟩
      exact Nat.isDigit_of_mem_toDigits (b := 10) (n := value) (by decide) (by decide)
        (digits ▸ List.mem_cons_self)
  unfold chars
  split
  · simpa using first d.coefficient []
  · exact first _ _

end Decimal

/-! ### Magnitudes -/

theorem roundHalfEven_mul {quotient denominator : Nat} (positive : 0 < denominator) :
    roundHalfEven (quotient * denominator) denominator = quotient := by
  simp only [roundHalfEven, Nat.mul_div_cancel _ positive, Nat.mul_mod_left]
  rw [if_pos (Or.inl (by omega))]

/-- A decimal equal to a representable magnitude is rounded to it. -/
theorem roundToUnits_of_exact {numerator denominator units : Nat} (positive : 0 < denominator)
    (representable : Representable units)
    (exact : numerator * unitsPerOne = units * denominator) :
    roundToUnits numerator denominator = units := by
  simp only [roundToUnits, exact, Nat.mul_div_cancel _ positive]
  have divides : Nat.pow 2 (surplusBits units) ∣ units := Nat.dvd_of_mod_eq_zero representable.2
  have grain : 0 < Nat.pow 2 (surplusBits units) := Nat.two_pow_pos _
  generalize Nat.pow 2 (surplusBits units) = step at divides grain ⊢
  obtain ⟨count, whole⟩ := divides
  have scaled : units * denominator = count * (denominator * step) := by rw [whole]; ring
  rw [scaled, roundHalfEven_mul (Nat.mul_pos positive grain), Nat.mul_comm]
  exact whole.symm

/-- A count of units, each a power of one half, as a decimal: the power of two that the count shares
with the unit is taken out, and five to the power of the places turns the rest of the unit into a
power of one tenth. -/
theorem exact_decimal_value (units exponent : Nat) :
    let power := Nat.gcd units (Nat.pow 2 exponent)
    let places := exponent - power.log2
    units / power * Nat.pow 5 places * Nat.pow 2 exponent = units * Nat.pow 10 places := by
  simp only [Nat.pow_eq]
  obtain ⟨k, small, eq⟩ : ∃ k ≤ exponent, Nat.gcd units (2 ^ exponent) = 2 ^ k :=
    (Nat.dvd_prime_pow Nat.prime_two).mp (Nat.gcd_dvd_right _ _)
  obtain ⟨count, whole⟩ : 2 ^ k ∣ units := eq ▸ Nat.gcd_dvd_left _ _
  have quotient : units / 2 ^ k = count := by
    rw [whole, Nat.mul_div_cancel_left _ (Nat.two_pow_pos k)]
  have split : 2 ^ exponent = 2 ^ k * 2 ^ (exponent - k) := by
    rw [← Nat.pow_add, Nat.add_sub_cancel' small]
  have ten : (10 : Nat) ^ (exponent - k) = 2 ^ (exponent - k) * 5 ^ (exponent - k) := by
    rw [← Nat.mul_pow]
  rw [eq, Nat.log2_two_pow, quotient, split, whole, ten]
  ring

namespace Magnitude

theorem exact_value (magnitude : Magnitude) :
    magnitude.exact.coefficient * unitsPerOne =
      magnitude.units * Nat.pow 10 magnitude.exact.places := by
  unfold exact unitsPerOne
  generalize unitPlaces = places
  exact exact_decimal_value magnitude.units places

theorem isReadFrom_exact (magnitude : Magnitude) : magnitude.isReadFrom magnitude.exact = true := by
  simp only [isReadFrom, beq_iff_eq]
  exact roundToUnits_of_exact (Nat.pow_pos (by decide)) magnitude.representable
    magnitude.exact_value

theorem isReadFrom_withDigits? {magnitude : Magnitude} {digits : Nat} {d : Decimal}
    (h : magnitude.withDigits? digits = some d) : magnitude.isReadFrom d = true := by
  simp only [withDigits?] at h
  split at h
  · next below =>
    cases h
    exact (Bool.and_eq_true_iff.mp below).1
  · split at h
    · next above =>
      cases h
      exact above
    · cases h

/-- The decimal that is written for a magnitude is read back as that magnitude. -/
theorem isReadFrom_shortest (magnitude : Magnitude) :
    magnitude.isReadFrom magnitude.shortest = true := by
  unfold shortest
  cases found : (List.range' 1 17).findSome? magnitude.withDigits? with
  | none => exact magnitude.isReadFrom_exact
  | some d =>
    obtain ⟨digits, -, chosen⟩ := List.exists_of_findSome?_eq_some found
    exact isReadFrom_withDigits? chosen

end Magnitude

/-! ### Numbers -/

namespace Number

theorem ofDecimal_of_units {magnitude : Magnitude} {d : Decimal} (negative : Bool)
    (h : roundToUnits d.coefficient (Nat.pow 10 d.places) = magnitude.units) :
    ofDecimal negative d = .finite negative magnitude := by
  unfold ofDecimal
  rw [h]
  exact dif_pos magnitude.representable

theorem ofDecimal_shortest (negative : Bool) (magnitude : Magnitude) :
    ofDecimal negative magnitude.shortest = .finite negative magnitude := by
  have back := magnitude.isReadFrom_shortest
  generalize magnitude.shortest = d at back ⊢
  exact ofDecimal_of_units negative (beq_iff_eq.mp back)

theorem text_finite (negative : Bool) (magnitude : Magnitude) :
    (finite negative magnitude).text =
      (if negative then "-" else "") ++ String.ofList magnitude.shortest.chars := by
  rw [text]

/-- The characters of a finite number. -/
theorem toList_text_finite (negative : Bool) (magnitude : Magnitude) :
    (finite negative magnitude).text.toList =
      (if negative then ['-'] else []) ++ magnitude.shortest.chars := by
  rw [text_finite, String.toList_append, String.toList_ofList]
  generalize magnitude.shortest.chars = digits
  cases negative <;> rfl

theorem read?_signed (negative : Bool) (d : Decimal) {rest : List Char}
    (stop : StopsBefore Decimal.endsNumber rest) :
    read? ((if negative then ['-'] else []) ++ d.chars ++ rest) =
      some (ofDecimal negative d, rest) := by
  have back := Decimal.read?_chars d stop
  cases negative with
  | true => simp [read?, back]
  | false =>
    obtain ⟨c, cs, whole, digit⟩ := d.chars_head
    have notMinus : c ≠ '-' := by
      intro given
      subst given
      exact absurd digit (by decide)
    have notPlus : c ≠ '+' := by
      intro given
      subst given
      exact absurd digit (by decide)
    rw [whole] at back
    simp only [Bool.false_eq_true, if_false, List.nil_append, whole, List.cons_append] at back ⊢
    unfold read?
    split
    · next eq => exact absurd (List.cons.inj eq).1 notMinus
    · next eq => exact absurd (List.cons.inj eq).1 notPlus
    · rw [back]
      rfl

/-- The text of a finite number is read back as that number. -/
theorem read?_text_finite (negative : Bool) (magnitude : Magnitude) {rest : List Char}
    (stop : StopsBefore Decimal.endsNumber rest) :
    read? ((finite negative magnitude).text.toList ++ rest) =
      some (.finite negative magnitude, rest) := by
  rw [toList_text_finite, read?_signed negative magnitude.shortest stop, ofDecimal_shortest]

end Number

end ValueGrammar
