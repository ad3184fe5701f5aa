import ValueGrammar.Category.Standard
import ValueGrammar.Proofs.Text.Lowering
import ValueGrammar.Proofs.Value.Spacing

/-!
What the standard categories accept. Words, numbers, dimensions, hexadecimal and named colors and
calls stand in a value as one fragment each. Strings, links and color functions are recognised by
their two ends alone; what stands between the ends may be cut.
-/
namespace ValueGrammar

open Unicode Text

namespace Fragments

/-- A text that is one fragment of a value, whatever stands behind it. -/
structure Whole (text : String) : Prop where
  fragment : IsFragment Separator.all text.toList
  closed : Closed text.toList

instance (text : String) : Decidable (Whole text) :=
  decidable_of_iff (IsFragment Separator.all text.toList ∧ Closed text.toList)
    ⟨fun h => ⟨h.1, h.2⟩, fun h => ⟨h.fragment, h.closed⟩⟩

/-- Texts that neither start nor end with a separator. -/
structure SolidEnds (text : String) : Prop where
  nonempty : text.toList ≠ []
  ends : ∀ c, c ∈ text.toList.head? ∨ c ∈ text.toList.getLast? → Separator.ofChar? c = none

theorem whole_of_plain {text : String} (nonempty : text.toList ≠ [])
    (plain : ∀ c ∈ text.toList, isPlain c = true) : Whole text := by
  obtain ⟨fragment, closed⟩ := isFragment_plain Separator.all nonempty plain
  exact ⟨fragment, closed⟩

theorem Whole.solidEnds {text : String} (whole : Whole text) : SolidEnds text := by
  refine ⟨whole.fragment.nonempty, ?_⟩
  intro c atEnd
  rcases atEnd with first | last
  · obtain ⟨d, rest, spelled, solid⟩ := whole.fragment.starts_solid
    rw [spelled] at first
    obtain rfl : d = c := by simpa using first
    exact solid
  · exact ends_solid_of_uncut Nesting.outside_quoted whole.fragment.uncut whole.closed c last

theorem isIdentifierChar_of_isAlphanum {c : Char} (letter : c.isAlphanum = true) :
    isIdentifierChar c = true := by
  have ascii : c.toNat < 0x80 := by
    unfold Char.isAlphanum Char.isAlpha Char.isUpper Char.isLower Char.isDigit at letter
    simp only [Bool.or_eq_true, Bool.and_eq_true, decide_eq_true_eq, UInt32.le_iff_toNat_le,
      ge_iff_le] at letter
    change c.val.toNat < 128
    change ((65 ≤ c.val.toNat ∧ c.val.toNat ≤ 90) ∨ 97 ≤ c.val.toNat ∧ c.val.toNat ≤ 122) ∨
      48 ≤ c.val.toNat ∧ c.val.toNat ≤ 57 at letter
    omega
  rw [isIdentifierChar, isAlphanumeric, if_pos ascii, letter]
  rfl

theorem isPlain_of_isAlphanum {c : Char} (letter : c.isAlphanum = true) : isPlain c = true :=
  isPlain_of_isIdentifierChar (isIdentifierChar_of_isAlphanum letter)

theorem isAlphanum_of_isLower {c : Char} (lower : c.isLower = true) : c.isAlphanum = true := by
  unfold Char.isAlphanum Char.isAlpha
  simp [lower]

theorem isPlain_of_isLower {c : Char} (lower : c.isLower = true) : isPlain c = true :=
  isPlain_of_isAlphanum (isAlphanum_of_isLower lower)

theorem isPlain_of_isDigit {c : Char} (digit : c.isDigit = true) : isPlain c = true :=
  isPlain_of_isAlphanum (by simp [Char.isAlphanum, digit])

end Fragments

/-! ### Numbers -/

def isNumberChar (c : Char) : Bool :=
  c.isDigit || c == '.' || c == '-' || c == '+'

theorem isPlain_of_isNumberChar {c : Char} (inNumber : isNumberChar c = true) :
    Fragments.isPlain c = true := by
  simp only [isNumberChar, Bool.or_eq_true, beq_iff_eq] at inNumber
  rcases inNumber with ((digit | rfl) | rfl) | rfl
  · exact Fragments.isPlain_of_isDigit digit
  · decide
  · decide
  · decide

theorem Decimal.read?_eq_some {cs rest : List Char} {d : Decimal}
    (read : Decimal.read? cs = some (d, rest)) :
    ∃ front, front ≠ [] ∧ cs = front ++ rest ∧ ∀ c ∈ front, isNumberChar c = true := by
  have split := List.takeWhile_append_dropWhile (p := Char.isDigit) (l := cs)
  have digits {ds : List Char} : ∀ c ∈ ds.takeWhile Char.isDigit, isNumberChar c = true := by
    intro c member
    simp [isNumberChar, (List.mem_takeWhile_imp member : c.isDigit = true)]
  unfold Decimal.read? at read
  dsimp only at read
  split at read
  · next after point =>
    split at read
    · cases read
    · cases read
      have later := List.takeWhile_append_dropWhile (p := Char.isDigit) (l := after)
      refine ⟨cs.takeWhile Char.isDigit ++ '.' :: after.takeWhile Char.isDigit, by simp, ?_, ?_⟩
      · rw [List.append_assoc, List.cons_append, later, ← point, split]
      · intro c member
        rcases List.mem_append.mp member with whole | fraction
        · exact digits c whole
        · rcases List.mem_cons.mp fraction with rfl | behind
          · decide
          · exact digits c behind
  · split at read
    · cases read
    · next nonempty =>
      cases read
      exact ⟨_, fun none => nonempty (List.isEmpty_iff.mpr none), split.symm, digits⟩

/-- A number starts a text with characters of numbers only. -/
theorem Number.read?_eq_some {cs rest : List Char} {x : Number}
    (read : Number.read? cs = some (x, rest)) :
    ∃ front, front ≠ [] ∧ cs = front ++ rest ∧ ∀ c ∈ front, isNumberChar c = true := by
  have signed {sign : Char} (known : isNumberChar sign = true) {after : List Char}
      {negative : Bool} (found : (Decimal.read? after).map
        (fun d => (ofDecimal negative d.1, d.2)) = some (x, rest)) :
      ∃ front, front ≠ [] ∧ sign :: after = front ++ rest ∧
        ∀ c ∈ front, isNumberChar c = true := by
    obtain ⟨⟨d, behind⟩, decimal, same⟩ := Option.map_eq_some_iff.mp found
    obtain ⟨-, rfl⟩ := Prod.mk.injEq .. ▸ same
    obtain ⟨front, -, rfl, chars⟩ := Decimal.read?_eq_some decimal
    refine ⟨sign :: front, by simp, rfl, ?_⟩
    intro c member
    rcases List.mem_cons.mp member with rfl | inside
    · exact known
    · exact chars c inside
  unfold Number.read? at read
  split at read
  · exact signed (by decide) read
  · exact signed (by decide) read
  · obtain ⟨⟨d, behind⟩, decimal, same⟩ := Option.map_eq_some_iff.mp read
    obtain ⟨-, rfl⟩ := Prod.mk.injEq .. ▸ same
    exact Decimal.read?_eq_some decimal

namespace Fragment

open Fragments

/-- A number with a plain unit is one fragment. -/
theorem whole_of_read {fragment : String} {x : Number} {unit : List Char}
    (read : Number.read? fragment.toList = some (x, unit))
    (plain : ∀ c ∈ unit, isPlain c = true) : Whole fragment := by
  obtain ⟨front, nonempty, spelled, chars⟩ := Number.read?_eq_some read
  apply whole_of_plain
  · simp [spelled, nonempty]
  · intro c member
    rw [spelled] at member
    rcases List.mem_append.mp member with inNumber | inUnit
    · exact isPlain_of_isNumberChar (chars c inNumber)
    · exact plain c inUnit

theorem whole_of_isNumber {fragment : String} (number : isNumber fragment = true) :
    Whole fragment := by
  unfold isNumber at number
  split at number
  · next x read => exact whole_of_read read (by simp)
  · cases number

theorem whole_of_dimension? {fragment key : String} (dimension : dimension? fragment = some key) :
    Whole fragment := by
  unfold dimension? at dimension
  split at dimension
  · cases dimension
  · next x read => exact whole_of_read read (by simp)
  · next x read => exact whole_of_read read (List.forall_mem_singleton.mpr (by decide))
  · next x unit _ _ read =>
    split at dimension
    · next letters =>
      apply whole_of_read read
      intro c member
      have letter := List.all_eq_true.mp (Bool.and_eq_true_iff.mp letters).1 c member
      exact isPlain_of_isAlphanum (by simp [Char.isAlphanum, letter])
    · cases dimension

/-! ### Words -/

theorem whole_of_isInteger {fragment : String} (integer : isInteger fragment = true) :
    Whole fragment := by
  unfold isInteger at integer
  split at integer
  · next digits spelled =>
    apply whole_of_plain (by simp [spelled])
    intro c member
    rw [spelled] at member
    rcases List.mem_cons.mp member with rfl | inside
    · decide
    · exact isPlain_of_isDigit (List.all_eq_true.mp (Bool.and_eq_true_iff.mp integer).2 c inside)
  · obtain ⟨nonempty, digits⟩ := Bool.and_eq_true_iff.mp integer
    apply whole_of_plain
    · intro none
      simp [none] at nonempty
    · intro c member
      exact isPlain_of_isDigit (List.all_eq_true.mp digits c member)

theorem isIdentifierChar_of_isKeywordChar {c : Char} (inKeyword : isKeywordChar c = true) :
    isIdentifierChar c = true := by
  simp only [isKeywordChar, Bool.or_eq_true, beq_iff_eq] at inKeyword
  rcases inKeyword with (lower | digit) | rfl
  · exact isIdentifierChar_of_isAlphanum (isAlphanum_of_isLower lower)
  · exact isIdentifierChar_of_isAlphanum (by simp [Char.isAlphanum, digit])
  · decide

/-- Keywords are made of the characters of identifiers. -/
theorem letters_of_isKeyword {fragment : String} (keyword : isKeyword fragment = true) :
    fragment.toList ≠ [] ∧ ∀ c ∈ fragment.toList, isIdentifierChar c = true := by
  unfold isKeyword at keyword
  dsimp only at keyword
  split at keyword
  · next body first others inside =>
    rw [inside, Bool.and_eq_true_iff, List.all_eq_true] at keyword
    have letters : ∀ c ∈ first :: others, isIdentifierChar c = true := fun c member =>
      isIdentifierChar_of_isKeywordChar (keyword.2 c member)
    split at inside
    · next rest hyphen =>
      rw [hyphen, inside]
      exact ⟨List.cons_ne_nil _ _, List.forall_mem_cons.mpr ⟨by decide, letters⟩⟩
    · rw [inside]
      exact ⟨List.cons_ne_nil _ _, letters⟩
  · cases keyword

theorem whole_of_isKeyword {fragment : String} (keyword : isKeyword fragment = true) :
    Whole fragment := by
  obtain ⟨nonempty, letters⟩ := letters_of_isKeyword keyword
  exact whole_of_plain nonempty fun c member => isPlain_of_isIdentifierChar (letters c member)

/-! ### Colors -/

theorem isPlain_of_isHexDigit {c : Char} (digit : isHexDigit c = true) : isPlain c = true := by
  simp only [isHexDigit, Bool.or_eq_true, Bool.and_eq_true, decide_eq_true_eq] at digit
  rcases digit with decimal | ⟨low, high⟩
  · exact isPlain_of_isDigit decimal
  · apply isPlain_of_isLower
    have atMost : c ≤ 'z' := Char.le_trans high (by decide)
    unfold Char.isLower
    rw [Bool.and_eq_true, decide_eq_true_eq, decide_eq_true_eq]
    exact ⟨low, atMost⟩

/-- The names of colors are made of small letters. -/
theorem letters_of_named {name : String} (known : name ∈ Catalog.namedColors) :
    name.toList ≠ [] ∧ ∀ c ∈ name.toList, c.isLower = true := by
  have named : Catalog.namedColors.all (fun name =>
      !name.toList.isEmpty && name.toList.all Char.isLower) = true := by decide +kernel
  obtain ⟨nonempty, letters⟩ := Bool.and_eq_true_iff.mp (List.all_eq_true.mp named name known)
  exact ⟨by simpa using nonempty, List.all_eq_true.mp letters⟩

/-- A color function is recognised by its front and by the parenthesis at its end. -/
def isColorCall (fragment : String) : Bool :=
  let cs := (Unicode.lower fragment).toList
  ["rgb(", "rgba(", "hsl(", "hsla("].any (fun front => front.toList.isPrefixOf cs) &&
    [')'].isSuffixOf cs

theorem whole_of_isColor {fragment : String} (color : isColor fragment = true) :
    Whole fragment ∨ isColorCall fragment = true := by
  have whole (nonempty : (Unicode.lower fragment).toList ≠ [])
      (plain : ∀ c ∈ (Unicode.lower fragment).toList, isPlain c = true) : Whole fragment := by
    refine whole_of_plain (fun none => nonempty ?_) (isPlain_of_lower plain)
    rw [Unicode.lower, none]
    rfl
  unfold isColor at color
  dsimp only at color
  split at color
  · next digits spelled =>
    left
    apply whole (by simp [spelled])
    intro c member
    rw [spelled] at member
    rcases List.mem_cons.mp member with rfl | inside
    · decide
    · have checked := (Bool.and_eq_true_iff.mp color).2
      exact isPlain_of_isHexDigit (List.all_eq_true.mp checked c inside)
  · split at color
    · next front =>
      right
      rw [isColorCall, front, color]
      rfl
    · left
      obtain ⟨nonempty, letters⟩ := letters_of_named (List.contains_iff_mem.mp color)
      exact whole nonempty fun c member => isPlain_of_isLower (letters c member)

/-! ### Texts known by their ends -/

theorem solid_between {front back : Char} {fronts cs : List Char}
    (start : front :: fronts <+: cs) (stop : [back] <:+ cs)
    (solidFront : Separator.ofChar? front = none) (solidBack : Separator.ofChar? back = none) :
    cs ≠ [] ∧ ∀ c, c ∈ cs.head? ∨ c ∈ cs.getLast? → Separator.ofChar? c = none := by
  obtain ⟨rest, spelled⟩ := start
  obtain ⟨before, spelled'⟩ := stop
  refine ⟨by simp [← spelled], fun c atEnd => ?_⟩
  rcases atEnd with first | last
  · obtain rfl : front = c := by simpa [← spelled] using first
    exact solidFront
  · rw [← spelled', List.getLast?_concat] at last
    obtain rfl : back = c := by simpa using last
    exact solidBack

theorem solidEnds_of_isString {fragment : String} (string : isString fragment = true) :
    SolidEnds fragment := by
  have quoted {q : Char} (solid : Separator.ofChar? q = none)
      (between : isBetween [q] [q] fragment.toList = true) : SolidEnds fragment := by
    obtain ⟨start, stop⟩ := Bool.and_eq_true_iff.mp between
    obtain ⟨nonempty, ends⟩ := solid_between (List.isPrefixOf_iff_prefix.mp start)
      (List.isSuffixOf_iff_suffix.mp stop) solid solid
    exact ⟨nonempty, ends⟩
  have between := (Bool.and_eq_true_iff.mp string).2
  rcases Bool.or_eq_true_iff.mp between with double | single
  · exact quoted (by decide) double
  · exact quoted (by decide) single

theorem solidEnds_of_lower {fragment : String} {front : Char} {fronts : List Char}
    (start : front :: fronts <+: (Unicode.lower fragment).toList)
    (stop : [')'] <:+ (Unicode.lower fragment).toList)
    (solid : Separator.ofChar? front = none) : SolidEnds fragment := by
  obtain ⟨nonempty, ends⟩ := solid_between start stop solid (by decide)
  refine ⟨fun none => nonempty ?_, solid_ends_of_lower ends⟩
  rw [Unicode.lower, none]
  rfl

theorem solidEnds_of_isUrl {fragment : String} (url : isUrl fragment = true) :
    SolidEnds fragment := by
  obtain ⟨start, stop⟩ := Bool.and_eq_true_iff.mp url
  exact solidEnds_of_lower (List.isPrefixOf_iff_prefix.mp start)
    (List.isSuffixOf_iff_suffix.mp stop) (by decide)

theorem solidEnds_of_isColorCall {fragment : String} (call : isColorCall fragment = true) :
    SolidEnds fragment := by
  obtain ⟨fronts, stop⟩ := Bool.and_eq_true_iff.mp call
  obtain ⟨front, known, start⟩ := List.any_eq_true.mp fronts
  have named : ∃ c rest, front.toList = c :: rest ∧ Separator.ofChar? c = none := by
    simp only [List.mem_cons, List.not_mem_nil, or_false] at known
    rcases known with rfl | rfl | rfl | rfl <;> exact ⟨_, _, rfl, by decide⟩
  obtain ⟨c, rest, spelled, solid⟩ := named
  rw [List.isPrefixOf_iff_prefix, spelled] at start
  exact solidEnds_of_lower start (List.isSuffixOf_iff_suffix.mp stop) solid

end Fragment

/-! ### Categories -/

namespace Category

open Fragments Fragment

/-- Texts that are recognised by their ends alone. -/
def KnownByEnds (text : String) : Prop :=
  isString text = true ∨ isUrl text = true ∨ isColorCall text = true

theorem mem_only {key token : String} {holds : Bool} :
    token ∈ only key holds ↔ token = key ∧ holds = true := by
  unfold only
  cases holds <;> simp

/-- What is taken for a registered function is a call as a whole. -/
theorem exists_call_of_classify {registry : Registry} {text key : String}
    (accepted : key ∈ function.classify registry text) :
    ∃ call, Text.call? text.toList = some (call, []) := by
  simp only [function] at accepted
  split at accepted
  · next name called =>
    unfold calledName? at called
    split at called
    · next call read => exact ⟨call, read⟩
    · cases called
  · cases accepted

/-- What a standard category accepts is one fragment of a value or known by its ends alone. -/
theorem whole_or_known_of_accepted {category : Category} (standard : category ∈ standard)
    {registry : Registry} {text key : String} (accepted : key ∈ category.classify registry text) :
    Whole text ∨ KnownByEnds text := by
  simp only [Category.standard, List.mem_cons, List.not_mem_nil, or_false] at standard
  rcases standard with rfl | rfl | rfl | rfl | rfl | rfl | rfl | rfl
  · obtain ⟨call, read⟩ := exists_call_of_classify accepted
    obtain ⟨fragment, closed⟩ := isFragment_call Separator.all read
    exact Or.inl ⟨fragment, closed⟩
  · simp only [link] at accepted
    split at accepted
    · next string => exact Or.inr (Or.inl string)
    · exact Or.inr (Or.inr (Or.inl (mem_only.mp accepted).2))
  · rcases whole_of_isColor (mem_only.mp accepted).2 with whole | call
    · exact Or.inl whole
    · exact Or.inr (Or.inr (Or.inr call))
  · exact Or.inl (whole_of_isInteger (mem_only.mp accepted).2)
  · exact Or.inl (whole_of_isNumber (mem_only.mp accepted).2)
  · exact Or.inl (whole_of_dimension? (Option.mem_toList.mp accepted))
  · exact Or.inl (whole_of_isKeyword (mem_only.mp accepted).2)
  · cases accepted

theorem KnownByEnds.solidEnds {text : String} (known : KnownByEnds text) : SolidEnds text := by
  rcases known with string | url | call
  · exact solidEnds_of_isString string
  · exact solidEnds_of_isUrl url
  · exact solidEnds_of_isColorCall call

end Category

end ValueGrammar
