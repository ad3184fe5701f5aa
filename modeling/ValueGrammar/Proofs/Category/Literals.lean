import Mathlib.Computability.Language
import ValueGrammar.Proofs.Category.Fragments
import ValueGrammar.Proofs.Number.Numeral

/-!
The languages of literals. The recognisers of integers, numbers, percentages, lengths and keywords each
accept exactly the texts of a language that is put together from classes of characters. Only zero is not
a matter of characters alone: as lengths, numerals are accepted without a unit if they are rounded to it.
-/
namespace ValueGrammar

open Text
open scoped Computability

/-! ### Languages -/

namespace Literal

def oneOf (kind : Char → Bool) : Language Char :=
  {cs : List Char | ∃ c, kind c = true ∧ cs = [c]}

/-- `[0-9]+` -/
def digits : Language Char :=
  oneOf Char.isDigit * (oneOf Char.isDigit)∗

/-- `-?[0-9]+` -/
def integers : Language Char :=
  (1 + oneOf (· == '-')) * digits

/-- `[0-9]+(\.[0-9]*)?|\.[0-9]+` -/
def unsigned : Language Char :=
  digits * (1 + oneOf (· == '.') * (oneOf Char.isDigit)∗) + oneOf (· == '.') * digits

/-- `[+-]?([0-9]+(\.[0-9]*)?|\.[0-9]+)` -/
def numerals : Language Char :=
  (1 + oneOf fun c => c == '+' || c == '-') * unsigned

def percentages : Language Char :=
  numerals * oneOf (· == '%')

def units : Language Char :=
  {cs : List Char | (∀ c ∈ cs, c.isAlpha = true) ∧
    String.ofList (cs.map Char.toLower) ∈ Catalog.lengthUnits}

/-- The numerals that are zero in the 64-bit format. -/
def zeros : Language Char :=
  {cs : List Char | ∃ n : Numeral, n.chars = cs ∧ n.number.isZero = true}

def lengths : Language Char :=
  numerals * units + zeros

def numeric : Language Char :=
  integers + numerals + percentages + lengths

/-- `-?[a-z][a-z0-9-]*` -/
def keywords : Language Char :=
  (1 + oneOf (· == '-')) * (oneOf Char.isLower * (oneOf Fragment.isKeywordChar)∗)

variable {kind : Char → Bool} {cs : List Char}

theorem mem_oneOf : cs ∈ oneOf kind ↔ ∃ c, kind c = true ∧ cs = [c] :=
  Iff.rfl

theorem mem_kstar_oneOf : cs ∈ (oneOf kind)∗ ↔ ∀ c ∈ cs, kind c = true := by
  rw [Language.mem_kstar]
  constructor
  · rintro ⟨parts, rfl, each⟩ c member
    obtain ⟨part, inside, found⟩ := List.mem_flatten.mp member
    obtain ⟨d, holds, rfl⟩ := each part inside
    rwa [List.mem_singleton.mp found]
  · intro all
    refine ⟨cs.map fun c => [c], ?_, fun part member => ?_⟩
    · induction cs with
      | nil => rfl
      | cons c cs ih =>
        rw [List.map_cons, List.flatten_cons, ← ih fun d member => all d (List.mem_cons_of_mem c member)]
        rfl
    · obtain ⟨c, inside, rfl⟩ := List.mem_map.mp member
      exact ⟨c, all c inside, rfl⟩

/-- What is left of a text behind an optional character of a kind. -/
theorem mem_optional_mul {behind : Language Char} :
    cs ∈ (1 + oneOf kind) * behind ↔
      cs ∈ behind ∨ ∃ c rest, kind c = true ∧ rest ∈ behind ∧ cs = c :: rest := by
  rw [Language.mem_mul]
  constructor
  · rintro ⟨front, rfl | ⟨c, holds, rfl⟩, rest, member, rfl⟩
    · exact Or.inl member
    · exact Or.inr ⟨c, rest, holds, member, rfl⟩
  · rintro (member | ⟨c, rest, holds, member, rfl⟩)
    · exact ⟨[], Or.inl rfl, cs, member, rfl⟩
    · exact ⟨[c], Or.inr ⟨c, holds, rfl⟩, rest, member, rfl⟩

theorem mem_oneOf_mul {behind : Language Char} :
    cs ∈ oneOf kind * behind ↔ ∃ c rest, kind c = true ∧ rest ∈ behind ∧ cs = c :: rest := by
  rw [Language.mem_mul]
  constructor
  · rintro ⟨-, ⟨c, holds, rfl⟩, rest, member, rfl⟩
    exact ⟨c, rest, holds, member, rfl⟩
  · rintro ⟨c, rest, holds, member, rfl⟩
    exact ⟨[c], ⟨c, holds, rfl⟩, rest, member, rfl⟩

theorem mem_digits : cs ∈ digits ↔ cs ≠ [] ∧ ∀ c ∈ cs, c.isDigit = true := by
  rw [digits, mem_oneOf_mul]
  constructor
  · rintro ⟨c, rest, digit, others, rfl⟩
    exact ⟨List.cons_ne_nil c rest, List.forall_mem_cons.mpr ⟨digit, mem_kstar_oneOf.mp others⟩⟩
  · rintro ⟨nonempty, all⟩
    obtain ⟨c, rest, rfl⟩ := List.exists_cons_of_ne_nil nonempty
    obtain ⟨digit, others⟩ := List.forall_mem_cons.mp all
    exact ⟨c, rest, digit, mem_kstar_oneOf.mpr others, rfl⟩

/-- A hyphen in front of a text may be left out, if what stands behind it starts with none. -/
theorem mem_hyphenated {behind : Language Char} (solid : ∀ rest, '-' :: rest ∉ behind) :
    (∀ rest, '-' :: rest ∈ (1 + oneOf (· == '-')) * behind ↔ rest ∈ behind) ∧
      ∀ cs, (∀ rest, cs ≠ '-' :: rest) → (cs ∈ (1 + oneOf (· == '-')) * behind ↔ cs ∈ behind) := by
  constructor
  · intro rest
    rw [mem_optional_mul, or_iff_right (solid rest)]
    constructor
    · rintro ⟨c, rest', -, member, same⟩
      cases same
      exact member
    · exact fun member => ⟨'-', rest, rfl, member, rfl⟩
  · intro cs other
    rw [mem_optional_mul, or_iff_left]
    rintro ⟨c, rest, hyphen, -, rfl⟩
    obtain rfl : c = '-' := by simpa using hyphen
    exact other rest rfl

/-- Numerals without a sign. -/
theorem mem_unsigned (sign : Sign) : cs ∈ unsigned ↔ ∃ n : Numeral, n.sign = sign ∧ n.unsigned = cs := by
  rw [unsigned, Language.mem_add, mem_oneOf_mul, Language.mem_mul]
  constructor
  · rintro (⟨whole, ofWhole, rest, rfl | ofFraction, rfl⟩ | ⟨c, fraction, point, ofFraction, rfl⟩)
    · obtain ⟨nonempty, all⟩ := mem_digits.mp ofWhole
      exact ⟨⟨sign, whole, none, by simpa using all, by simpa using nonempty⟩, rfl, rfl⟩
    · obtain ⟨nonempty, all⟩ := mem_digits.mp ofWhole
      obtain ⟨c, fraction, point, more, rfl⟩ := mem_oneOf_mul.mp ofFraction
      obtain rfl : c = '.' := by simpa using point
      refine ⟨⟨sign, whole, some fraction, ?_, by simp [nonempty]⟩, rfl, rfl⟩
      intro c member
      exact (List.mem_append.mp member).elim (all c) (mem_kstar_oneOf.mp more c)
    · obtain rfl : c = '.' := by simpa using point
      obtain ⟨nonempty, all⟩ := mem_digits.mp ofFraction
      exact ⟨⟨sign, [], some fraction, by simpa using all, by simpa using nonempty⟩, rfl, rfl⟩
  · rintro ⟨⟨-, whole, fraction?, all, nonempty⟩, rfl, rfl⟩
    cases fraction? with
    | none =>
      rw [Option.getD_none, List.append_nil] at all nonempty
      exact Or.inl ⟨whole, mem_digits.mpr ⟨nonempty, all⟩, [], Or.inl rfl, rfl⟩
    | some fraction =>
      rw [Option.getD_some, List.forall_mem_append] at all
      cases whole with
      | nil => exact Or.inr ⟨'.', fraction, rfl, mem_digits.mpr ⟨nonempty, all.2⟩, rfl⟩
      | cons c whole =>
        have ofWhole := mem_digits.mpr ⟨List.cons_ne_nil c whole, all.1⟩
        have ofFraction : '.' :: fraction ∈ oneOf (· == '.') * (oneOf Char.isDigit)∗ :=
          mem_oneOf_mul.mpr ⟨'.', fraction, rfl, mem_kstar_oneOf.mpr all.2, rfl⟩
        exact Or.inl ⟨c :: whole, ofWhole, _, Or.inr ofFraction, rfl⟩

/-- Numbers are read from the texts of numerals. -/
theorem mem_numerals : cs ∈ numerals ↔ ∃ n : Numeral, n.chars = cs := by
  rw [numerals, mem_optional_mul]
  constructor
  · rintro (body | ⟨c, rest, signed, body, rfl⟩)
    · obtain ⟨n, sign, rfl⟩ := (mem_unsigned .none).mp body
      exact ⟨n, by rw [Numeral.chars, sign]; rfl⟩
    · simp only [Bool.or_eq_true, beq_iff_eq] at signed
      rcases signed with rfl | rfl
      · obtain ⟨n, sign, rfl⟩ := (mem_unsigned .plus).mp body
        exact ⟨n, by rw [Numeral.chars, sign]; rfl⟩
      · obtain ⟨n, sign, rfl⟩ := (mem_unsigned .minus).mp body
        exact ⟨n, by rw [Numeral.chars, sign]; rfl⟩
  · rintro ⟨n, rfl⟩
    have body := (mem_unsigned n.sign).mpr ⟨n, rfl, rfl⟩
    rw [Numeral.chars]
    cases n.sign with
    | none => exact Or.inl body
    | plus => exact Or.inr ⟨'+', n.unsigned, rfl, body, rfl⟩
    | minus => exact Or.inr ⟨'-', n.unsigned, rfl, body, rfl⟩

/-- Integers are numbers. -/
theorem mem_numerals_of_integers (integer : cs ∈ integers) : cs ∈ numerals := by
  have whole {ds : List Char} (ofDigits : ds ∈ digits) : ds ∈ unsigned :=
    Or.inl (Language.mem_mul.mpr ⟨ds, ofDigits, [], Or.inl rfl, List.append_nil ds⟩)
  rw [integers, mem_optional_mul] at integer
  rw [numerals, mem_optional_mul]
  rcases integer with body | ⟨c, rest, minus, body, rfl⟩
  · exact Or.inl (whole body)
  · exact Or.inr ⟨c, rest, Bool.or_eq_true_iff.mpr (Or.inr minus), whole body, rfl⟩

/-- Behind its numeral a numeric literal has letters and percent signs only. -/
theorem exists_of_mem_numeric (member : cs ∈ numeric) : ∃ (n : Numeral) (unit : List Char),
    cs = n.chars ++ unit ∧ ∀ c ∈ unit, c.isAlpha = true ∨ c = '%' := by
  have alone (numeral : cs ∈ numerals) : ∃ (n : Numeral) (unit : List Char),
      cs = n.chars ++ unit ∧ ∀ c ∈ unit, c.isAlpha = true ∨ c = '%' := by
    obtain ⟨n, rfl⟩ := mem_numerals.mp numeral
    exact ⟨n, [], (List.append_nil _).symm, by simp⟩
  rcases member with ((integer | numeral) | ⟨front, numeral, unit, percent, rfl⟩) |
    ⟨front, numeral, unit, known, rfl⟩ | ⟨n, rfl, -⟩
  · exact alone (mem_numerals_of_integers integer)
  · exact alone numeral
  · obtain ⟨n, rfl⟩ := mem_numerals.mp numeral
    obtain ⟨c, sign, rfl⟩ := mem_oneOf.mp percent
    refine ⟨n, [c], rfl, fun d inside => Or.inr ?_⟩
    rw [List.mem_singleton.mp inside]
    simpa using sign
  · obtain ⟨n, rfl⟩ := mem_numerals.mp numeral
    exact ⟨n, unit, rfl, fun c inside => Or.inl (known.1 c inside)⟩
  · exact alone (mem_numerals.mpr ⟨n, rfl⟩)

end Literal

/-! ### Recognisers -/

namespace Fragment

open Literal

variable {fragment : String}

theorem isInteger_iff : isInteger fragment = true ↔ fragment.toList ∈ integers := by
  have checked (ds : List Char) : (!ds.isEmpty && ds.all Char.isDigit) = true ↔ ds ∈ digits := by
    rw [mem_digits]
    simp
  have solid (rest : List Char) : '-' :: rest ∉ digits := by
    rw [mem_digits]
    exact fun given => absurd (given.2 '-' List.mem_cons_self) (by decide)
  obtain ⟨signed, unsigned⟩ := mem_hyphenated solid
  unfold isInteger
  dsimp only
  split
  · next ds spelled => rw [spelled, checked, integers, signed]
  · next other => rw [checked, integers, unsigned _ other]

theorem isNumber_iff : isNumber fragment = true ↔ fragment.toList ∈ numerals := by
  rw [mem_numerals]
  unfold isNumber
  constructor
  · intro number
    split at number
    · next x read =>
      obtain ⟨n, -, spelled⟩ := Numeral.exists_of_readNumber read
      exact ⟨n, by rw [spelled, List.append_nil]⟩
    · cases number
  · rintro ⟨n, spelled⟩
    have read := n.read?_chars (.nil _)
    rw [List.append_nil, spelled] at read
    rw [read]

theorem isKeyword_iff : isKeyword fragment = true ↔ fragment.toList ∈ keywords := by
  have solid (rest : List Char) : '-' :: rest ∉ oneOf Char.isLower * (oneOf isKeywordChar)∗ := by
    rw [mem_oneOf_mul]
    rintro ⟨c, rest', lower, -, same⟩
    cases same
    cases lower
  obtain ⟨hyphened, plain⟩ := mem_hyphenated solid
  rw [keywords]
  unfold isKeyword
  dsimp only
  split
  · next first others inside =>
    have checked : (first.isLower && (first :: others).all isKeywordChar) = true ↔
        first :: others ∈ oneOf Char.isLower * (oneOf isKeywordChar)∗ := by
      simp only [mem_oneOf_mul, mem_kstar_oneOf, List.all_cons, Bool.and_eq_true, List.all_eq_true]
      constructor
      · rintro ⟨lower, -, letters⟩
        exact ⟨first, others, lower, letters, rfl⟩
      · rintro ⟨c, rest, lower, letters, same⟩
        cases same
        exact ⟨lower, by simp [isKeywordChar, lower], letters⟩
    rw [inside, checked]
    split at inside
    · next body spelled => rw [spelled, hyphened, inside]
    · next other => rw [plain _ other, inside]
  · next inside =>
    have nothing : [] ∉ oneOf Char.isLower * (oneOf isKeywordChar)∗ := by
      rw [mem_oneOf_mul]
      rintro ⟨c, rest, -, -, same⟩
      cases same
    have refused : false = true ↔ [] ∈ oneOf Char.isLower * (oneOf isKeywordChar)∗ := by
      simp [nothing]
    rw [refused]
    split at inside
    · next body spelled => rw [spelled, hyphened, inside]
    · next other => rw [plain _ other, inside]

/-- A number with something behind it that does not continue it is read off its numeral. -/
theorem read?_iff {rest : List Char} (stop : StopsBefore Decimal.endsNumber rest) {x : Number} :
    Number.read? fragment.toList = some (x, rest) ↔
      ∃ n : Numeral, n.number = x ∧ fragment.toList = n.chars ++ rest := by
  constructor
  · exact Numeral.exists_of_readNumber
  · rintro ⟨n, rfl, spelled⟩
    rw [spelled, n.read?_chars stop]

/-- A unit is not empty, no percent sign, and does not continue a number. -/
theorem units_solid {unit : List Char} (member : unit ∈ units) :
    unit ≠ [] ∧ unit ≠ ['%'] ∧ StopsBefore Decimal.endsNumber unit := by
  obtain ⟨letters, known⟩ := member
  refine ⟨?_, ?_, fun c first => ?_⟩
  · rintro rfl
    exact absurd known (by decide +kernel)
  · rintro rfl
    exact absurd (letters '%' List.mem_cons_self) (by decide)
  · have letter := letters c (List.mem_of_mem_head? first)
    have notDigit : c.isDigit = false := by
      unfold Char.isAlpha Char.isUpper Char.isLower at letter
      unfold Char.isDigit
      simp only [Bool.or_eq_true, Bool.and_eq_true, decide_eq_true_eq, ge_iff_le,
        UInt32.le_iff_toNat_le, Bool.and_eq_false_iff, decide_eq_false_iff_not] at letter ⊢
      change 65 ≤ c.val.toNat ∧ c.val.toNat ≤ 90 ∨ 97 ≤ c.val.toNat ∧ c.val.toNat ≤ 122 at letter
      change ¬ 48 ≤ c.val.toNat ∨ ¬ c.val.toNat ≤ 57
      omega
    rw [Decimal.endsNumber, notDigit, Bool.false_or, beq_eq_false_iff_ne]
    rintro rfl
    cases letter

theorem isPercentage_iff :
    dimension? fragment = some "<percentage>" ↔ fragment.toList ∈ percentages := by
  have stop : StopsBefore Decimal.endsNumber ['%'] := .cons (by decide) []
  have language : fragment.toList ∈ percentages ↔
      ∃ x, Number.read? fragment.toList = some (x, ['%']) := by
    simp only [read?_iff stop, percentages, Language.mem_mul, mem_numerals, mem_oneOf]
    constructor
    · rintro ⟨-, ⟨n, rfl⟩, -, ⟨c, percent, rfl⟩, spelled⟩
      obtain rfl : c = '%' := by simpa using percent
      exact ⟨n.number, n, rfl, spelled.symm⟩
    · rintro ⟨-, n, rfl, spelled⟩
      exact ⟨n.chars, ⟨n, rfl⟩, ['%'], ⟨'%', rfl, rfl⟩, spelled.symm⟩
  rw [language]
  unfold dimension?
  split
  · next none => simp [none]
  · next x read =>
    rw [read]
    cases x.isZero <;> simp
  · next x read => simp [read]
  · next x unit _ percent read =>
    have other : unit ≠ ['%'] := fun same => percent same
    rw [read]
    split <;> simp [other]

/-- There are no other dimensions than percentages and lengths. -/
theorem dimension?_cases {key : String} (dimension : dimension? fragment = some key) :
    key = "<length>" ∨ key = "<percentage>" := by
  unfold dimension? at dimension
  split at dimension
  · cases dimension
  · split at dimension
    · exact Or.inl (Option.some.inj dimension).symm
    · cases dimension
  · exact Or.inr (Option.some.inj dimension).symm
  · split at dimension
    · exact Or.inl (Option.some.inj dimension).symm
    · cases dimension

theorem isLength_iff :
    dimension? fragment = some "<length>" ↔ fragment.toList ∈ lengths := by
  have ofUnit : fragment.toList ∈ numerals * units ↔
      ∃ x, ∃ unit ∈ units, Number.read? fragment.toList = some (x, unit) := by
    simp only [Language.mem_mul, mem_numerals]
    constructor
    · rintro ⟨-, ⟨n, rfl⟩, unit, known, spelled⟩
      exact ⟨n.number, unit, known, (read?_iff (units_solid known).2.2).mpr ⟨n, rfl, spelled.symm⟩⟩
    · rintro ⟨x, unit, known, read⟩
      obtain ⟨n, -, spelled⟩ := (read?_iff (units_solid known).2.2).mp read
      exact ⟨n.chars, ⟨n, rfl⟩, unit, known, spelled.symm⟩
  have ofZero : fragment.toList ∈ zeros ↔
      ∃ x, x.isZero = true ∧ Number.read? fragment.toList = some (x, []) := by
    simp only [read?_iff (.nil _), List.append_nil]
    constructor
    · rintro ⟨n, spelled, zero⟩
      exact ⟨n.number, zero, n, rfl, spelled.symm⟩
    · rintro ⟨-, zero, n, rfl, spelled⟩
      exact ⟨n, spelled.symm, zero⟩
  have empty : [] ∉ units := fun member => (units_solid member).1 rfl
  have percent : ['%'] ∉ units := fun member => (units_solid member).2.1 rfl
  rw [lengths, Language.mem_add, ofUnit, ofZero]
  unfold dimension?
  split
  · next none => simp [none]
  · next x read => simp [read, empty]
  · next x read => simp [read, percent]
  · next x unit solid other read =>
    have isUnit : (unit.all Char.isAlpha &&
        Catalog.lengthUnits.contains (String.ofList (unit.map Char.toLower))) = true ↔ unit ∈ units := by
      rw [Bool.and_eq_true, List.all_eq_true, List.contains_iff_mem]
      rfl
    rw [read]
    by_cases known : unit ∈ units
    · rw [if_pos (isUnit.mpr known)]
      simp [known]
    · rw [if_neg fun passed => known (isUnit.mp passed)]
      have nonempty : unit ≠ [] := fun none => solid none
      simp [known, nonempty]

end Fragment

end ValueGrammar
