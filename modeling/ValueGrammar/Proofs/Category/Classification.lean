import ValueGrammar.Proofs.Category.Literals
import ValueGrammar.Proofs.Slot.Contents

/-!
The classification of literals. A standard category owns every token that it takes a fragment for, and
no token has two owners, so a token is among those of a fragment exactly if its owner accepts the
fragment. For literals this is a matter of the languages that the owners accept, and the tokens of a
fragment stand in the order of their owners.
-/
namespace ValueGrammar

open Text Unicode

/-! ### Outcomes -/

def Category.Accepts (category : Category) (registry : Registry) (fragment : String) : Prop :=
  category.classify registry fragment ≠ []

namespace Context

variable {context : Context} {text : String}

/-- The tokens that a text may stand for are those of all categories, in order. -/
theorem flatMap_accepting (context : Context) (fragment : String) :
    (context.accepting fragment).flatMap (·.2) =
      context.categories.flatMap (·.classify context.registry fragment) := by
  unfold accepting
  induction context.categories with
  | nil => rfl
  | cons category categories ih =>
    rw [List.map_cons, List.filter_cons, List.flatMap_cons, ← ih]
    cases category.classify context.registry fragment <;> simp

/-- The first entry is that of the first category that accepts the fragment. -/
theorem isFirst_of_accepting {fragment : String} {entry : String × List String}
    (first : (context.accepting fragment).head? = some entry) :
    ∃ category, IsFirst (·.Accepts context.registry fragment) context.categories category ∧
      entry = (category.key, category.classify context.registry fragment) := by
  unfold accepting at first
  rw [List.head?_filter, List.find?_map] at first
  obtain ⟨category, found, rfl⟩ := Option.map_eq_some_iff.mp first
  refine ⟨category, ?_, rfl⟩
  refine (isFirst_congr fun other _ => ?_).mp (find?_eq_some_iff_isFirst.mp found)
  simp [Category.Accepts]

/-- A text that is classified stands for the tokens of all categories, without duplicates. The best one
is the first, and the first category that accepts the text has it. -/
theorem classify_eq_ok {classification : Classification}
    (classified : context.classify text = .ok classification) :
    classification.tokens =
        (context.categories.flatMap (·.classify context.registry (trim text))).eraseDups ∧
      classification.tokens.head? = some classification.best ∧
        ∃ category, IsFirst (·.Accepts context.registry (trim text)) context.categories category ∧
          category.key = classification.category ∧
            classification.best ∈ category.classify context.registry (trim text) := by
  unfold classify at classified
  dsimp only at classified
  split at classified
  · next key token tokens others accepted =>
    have all := context.flatMap_accepting (trim text)
    obtain ⟨category, first, entry⟩ := isFirst_of_accepting (List.head?_eq_some_iff.mpr ⟨_, accepted⟩)
    obtain ⟨named, best⟩ := Prod.mk.inj entry
    cases classified
    refine ⟨?_, ?_, category, first, named.symm, ?_⟩
    · rw [← all, accepted, List.flatMap_cons]
    · rw [List.cons_append, List.eraseDups_cons, List.head?_cons]
    · rw [← best]
      exact List.mem_cons_self
  · cases classified

end Context

/-! ### Owners -/

/-- The keywords of values are read as keywords. -/
theorem Fragment.parse_of_isKeyword {fragment : String} (keyword : isKeyword fragment = true) :
    Reference.parse fragment = .ok (.keyword fragment) := by
  have proper : (Reference.keyword fragment).Proper := letters_of_isKeyword keyword
  have back := Reference.parse_text proper
  change Reference.parse fragment = _ at back
  exact back

namespace Category

variable {category : Category}

/-- A category owns the tokens that it takes fragments for. -/
theorem owns_of_mem_classify (known : category ∈ standard) {registry : Registry}
    {fragment key : String} (accepted : key ∈ category.classify registry fragment) :
    category.owns registry key = true := by
  simp only [standard, List.mem_cons, List.not_mem_nil, or_false] at known
  rcases known with rfl | rfl | rfl | rfl | rfl | rfl | rfl | rfl
  · simp only [function] at accepted
    split at accepted
    · obtain ⟨rfl, owns⟩ := mem_only.mp accepted
      simp only [function, owns]
    · cases accepted
  · simp only [link] at accepted
    split at accepted
    · obtain rfl := List.mem_singleton.mp accepted
      rfl
    · obtain ⟨rfl, -⟩ := mem_only.mp accepted
      rfl
  · obtain ⟨rfl, -⟩ := mem_only.mp accepted
    rfl
  · obtain ⟨rfl, -⟩ := mem_only.mp accepted
    rfl
  · obtain ⟨rfl, -⟩ := mem_only.mp accepted
    rfl
  · rcases Fragment.dimension?_cases (Option.mem_toList.mp accepted) with rfl | rfl <;> rfl
  · obtain ⟨rfl, keyword⟩ := mem_only.mp accepted
    simp only [Category.keyword, Fragment.parse_of_isKeyword keyword, Reference.isKeyword]
  · cases accepted

/-- Every defined symbol has one owner. -/
theorem owner_of_definitions : Catalog.definitions.all (fun definition =>
    (standard.filter (·.owns .builtin definition.key)).length == 1) = true := by
  decide +kernel

/-- No token has two owners. -/
theorem eq_of_owns (known : category ∈ standard) {other : Category} (listed : other ∈ standard)
    {key : String} (owns : category.owns .builtin key = true)
    (owns' : other.owns .builtin key = true) : category = other := by
  -- Without a definition only a keyword has an owner at all; the defined symbols are few.
  cases found : Registry.builtin.find? key with
  | none =>
    have isKeyword {owner : Category} (inside : owner ∈ standard)
        (passes : owner.owns .builtin key = true) : owner = keyword := by
      by_contra different
      have fails := not_owns_of_undefined inside
        (fun named => different (eq_keyword inside named)) found
      rw [passes] at fails
      cases fails
    rw [isKeyword known owns, isKeyword listed owns']
  | some definition =>
    obtain ⟨defined, rfl⟩ := Registry.find?_eq_some found
    have one := beq_iff_eq.mp (List.all_eq_true.mp owner_of_definitions definition defined)
    obtain ⟨owner, alone⟩ := List.length_eq_one_iff.mp one
    have same {owner' : Category} (inside : owner' ∈ standard)
        (passes : owner'.owns .builtin definition.key = true) : owner' = owner := by
      rw [← List.mem_singleton, ← alone]
      exact List.mem_filter.mpr ⟨inside, passes⟩
    rw [same known owns, same listed owns']

/-- A category takes a fragment for one token at most. -/
theorem length_classify_le (known : category ∈ standard) (registry : Registry) (fragment : String) :
    (category.classify registry fragment).length ≤ 1 := by
  have length_only {key : String} {holds : Bool} : (only key holds).length ≤ 1 := by
    unfold only
    split <;> simp
  simp only [standard, List.mem_cons, List.not_mem_nil, or_false] at known
  rcases known with rfl | rfl | rfl | rfl | rfl | rfl | rfl | rfl
  · simp only [function]
    split
    · exact length_only
    · exact Nat.zero_le 1
  · simp only [link]
    split
    · exact Nat.le_refl 1
    · exact length_only
  · exact length_only
  · exact length_only
  · exact length_only
  · exact Option.length_toList_le
  · exact length_only
  · exact Nat.zero_le 1

/-- The tokens that the categories take a fragment for are distinct. -/
theorem nodup_flatMap_classify (fragment : String) :
    (standard.flatMap (·.classify .builtin fragment)).Nodup := by
  have distinct : standard.Pairwise fun a b => a.key ≠ b.key :=
    List.pairwise_map.mp (show (standard.map (·.key)).Nodup by decide)
  refine List.nodup_flatMap.mpr ⟨fun category known => ?_, distinct.imp_of_mem ?_⟩
  · have atMost := length_classify_le known .builtin fragment
    generalize category.classify .builtin fragment = tokens at atMost
    match tokens, atMost with
    | [], _ => exact List.nodup_nil
    | [token], _ => exact List.nodup_singleton token
  · intro a b known listed different token first second
    have same := eq_of_owns known listed (owns_of_mem_classify known first)
      (owns_of_mem_classify listed second)
    exact different (congrArg key same)

end Category

/-! ### Accepted literals -/

namespace Category

variable {fragment : String} (registry : Registry)

theorem mem_classify_integer :
    "<integer>" ∈ integer.classify registry fragment ↔ fragment.toList ∈ Literal.integers := by
  simp only [integer, mem_only, true_and, Fragment.isInteger_iff]

theorem mem_classify_number :
    "<number>" ∈ number.classify registry fragment ↔ fragment.toList ∈ Literal.numerals := by
  simp only [number, mem_only, true_and, Fragment.isNumber_iff]

theorem mem_classify_percentage :
    "<percentage>" ∈ length.classify registry fragment ↔
      fragment.toList ∈ Literal.percentages := by
  simp only [length, Option.mem_toList, Fragment.isPercentage_iff]

theorem mem_classify_length :
    "<length>" ∈ length.classify registry fragment ↔ fragment.toList ∈ Literal.lengths := by
  simp only [length, Option.mem_toList, Fragment.isLength_iff]

/-- A text is taken for no keyword but itself. -/
theorem mem_classify_keyword {name : String} :
    name ∈ keyword.classify registry fragment ↔
      name = fragment ∧ fragment.toList ∈ Literal.keywords := by
  simp only [keyword, mem_only, Fragment.isKeyword_iff]

end Category

/-! ### Literals with a numeral -/

theorem mem_of_isNumberChar {c : Char} (inNumber : isNumberChar c = true) :
    c ∈ ['0', '1', '2', '3', '4', '5', '6', '7', '8', '9', '.', '-', '+'] := by
  simp only [isNumberChar, Bool.or_eq_true, beq_iff_eq] at inNumber
  rcases inNumber with ((digit | rfl) | rfl) | rfl
  · exact List.mem_append_left ['.', '-', '+'] (mem_digits_of_isDigit digit)
  · simp
  · simp
  · simp

theorem isLower_of_isNumberChar {c : Char} (inNumber : isNumberChar c = true) :
    c.isLower = false := by
  have all : ['0', '1', '2', '3', '4', '5', '6', '7', '8', '9', '.', '-', '+'].all
      (!·.isLower) = true := by decide
  exact (Bool.not_eq_true' _).mp (List.all_eq_true.mp all c (mem_of_isNumberChar inNumber))

theorem isCaseless_of_isNumberChar {c : Char} (inNumber : isNumberChar c = true) :
    IsCaseless c := by
  have all : ['0', '1', '2', '3', '4', '5', '6', '7', '8', '9', '.', '-', '+'].all
      (fun d => decide (IsCaseless d)) = true := by decide
  exact of_decide_eq_true (List.all_eq_true.mp all c (mem_of_isNumberChar inNumber))

theorem isNumberChar_of_endsNumber {c : Char} (inNumber : Decimal.endsNumber c = true) :
    isNumberChar c = true := by
  simp only [Decimal.endsNumber, Bool.or_eq_true] at inNumber
  simp only [isNumberChar, inNumber, Bool.or_eq_true, true_or]

theorem Numeral.isNumberChar_of_mem {n : Numeral} {c : Char} (inside : c ∈ n.chars) :
    isNumberChar c = true := by
  obtain ⟨sign, whole, fraction?, digits, nonempty⟩ := n
  have ofDigit {d : Char} (digit : d.isDigit = true) : isNumberChar d = true := by
    simp only [isNumberChar, digit, Bool.true_or]
  rcases List.mem_append.mp inside with signed | unsigned
  · cases sign with
    | none => cases signed
    | plus =>
      obtain rfl := List.mem_singleton.mp signed
      decide
    | minus =>
      obtain rfl := List.mem_singleton.mp signed
      decide
  · rcases List.mem_append.mp unsigned with inWhole | behind
    · exact ofDigit (digits c (List.mem_append_left _ inWhole))
    · cases fraction? with
      | none => cases behind
      | some fraction =>
        rcases List.mem_cons.mp behind with rfl | inFraction
        · decide
        · exact ofDigit (digits c (List.mem_append_right _ inFraction))

namespace Literal

variable {cs : List Char}

/-- A numeric literal starts with a character of numbers. -/
theorem head?_of_mem_numeric (member : cs ∈ numeric) : ∃ c ∈ cs.head?, isNumberChar c = true := by
  obtain ⟨n, unit, rfl, -⟩ := exists_of_mem_numeric member
  cases spelled : n.chars with
  | nil =>
    obtain ⟨c, rest, unsigned, -⟩ := n.exists_unsigned
    rw [Numeral.chars, List.append_eq_nil_iff, unsigned] at spelled
    cases spelled.2
  | cons c rest =>
    refine ⟨c, rfl, Numeral.isNumberChar_of_mem (n := n) ?_⟩
    rw [spelled]
    exact List.mem_cons_self

theorem opening_not_mem_of_mem_numeric (member : cs ∈ numeric) : '(' ∉ cs := by
  obtain ⟨n, unit, rfl, ofUnit⟩ := exists_of_mem_numeric member
  rw [List.mem_append, not_or]
  constructor
  · exact fun inside => absurd (Numeral.isNumberChar_of_mem inside) (by decide)
  · intro inside
    rcases ofUnit _ inside with letter | percent
    · exact absurd letter (by decide)
    · exact absurd percent (by decide)

/-- No keyword has a numeral at its start. -/
theorem not_mem_keywords_of_mem_numeric (member : cs ∈ numeric) : cs ∉ keywords := by
  obtain ⟨n, unit, rfl, -⟩ := exists_of_mem_numeric member
  obtain ⟨c, rest, spelled, inNumber⟩ := n.exists_unsigned
  have notLower : c.isLower = false := isLower_of_isNumberChar (isNumberChar_of_endsNumber inNumber)
  rw [keywords, mem_optional_mul, Numeral.chars, spelled]
  generalize n.sign = sign
  simp only [mem_oneOf_mul]
  rintro (⟨d, others, lower, -, same⟩ | ⟨hyphen, -, isHyphen, ⟨d, others, lower, -, rfl⟩, same⟩)
  · cases sign with
    | none =>
      cases same
      rw [lower] at notLower
      cases notLower
    | plus =>
      cases same
      cases lower
    | minus =>
      cases same
      cases lower
  · cases sign with
    | none =>
      obtain rfl : hyphen = c := (List.cons.inj same).1.symm
      rw [beq_iff_eq.mp isHyphen] at inNumber
      cases inNumber
    | plus =>
      cases same
      cases isHyphen
    | minus =>
      cases same
      rw [lower] at notLower
      cases notLower

end Literal

namespace Fragment

/-- What starts with a character of numbers starts with no word, quote or number sign. -/
theorem not_isPrefixOf {c : Char} (front : Char) (fronts : List Char) {cs : List Char} (first : c ∈ cs.head?)
    (inNumber : isNumberChar c = true) (other : isNumberChar front = false) :
    (front :: fronts).isPrefixOf cs = false := by
  rw [Bool.eq_false_iff]
  intro initial
  obtain ⟨rest, rfl⟩ := List.isPrefixOf_iff_prefix.mp initial
  cases first
  rw [inNumber] at other
  cases other

section Numeric

variable {fragment : String} (numeric : fragment.toList ∈ Literal.numeric)

include numeric

/-- The small form of a numeric literal starts as the literal does. -/
theorem head?_lower_of_numeric : ∃ c ∈ (lower fragment).toList.head?, isNumberChar c = true := by
  obtain ⟨c, first, inNumber⟩ := Literal.head?_of_mem_numeric numeric
  exact ⟨c, head?_lower (isCaseless_of_isNumberChar inNumber) first, inNumber⟩

theorem calledName?_of_numeric : calledName? fragment = none := by
  unfold calledName?
  split
  · next call read =>
    have inside : '(' ∈ fragment.toList := by
      rw [call?_eq_some read]
      simp [Call.chars]
    exact absurd inside (Literal.opening_not_mem_of_mem_numeric numeric)
  · rfl

theorem isString_of_numeric : isString fragment = false := by
  obtain ⟨c, first, inNumber⟩ := Literal.head?_of_mem_numeric numeric
  have double := not_isPrefixOf '"' [] first inNumber (by decide)
  have single := not_isPrefixOf '\'' [] first inNumber (by decide)
  simp [isString, isBetween, double, single]

theorem isUrl_of_numeric : isUrl fragment = false := by
  obtain ⟨c, first, inNumber⟩ := head?_lower_of_numeric numeric
  exact Bool.and_eq_false_iff.mpr (Or.inl (not_isPrefixOf 'u' "rl(".toList first inNumber (by decide)))

theorem isColor_of_numeric : isColor fragment = false := by
  obtain ⟨c, first, inNumber⟩ := head?_lower_of_numeric numeric
  have unnamed : Catalog.namedColors.contains (lower fragment) = false := by
    rw [Bool.eq_false_iff]
    intro known
    have letter := (letters_of_named (List.contains_iff_mem.mp known)).2 c (List.mem_of_mem_head? first)
    rw [isLower_of_isNumberChar inNumber] at letter
    cases letter
  have noCall : ∀ front ∈ ["rgb(", "rgba(", "hsl(", "hsla("],
      front.toList.isPrefixOf (lower fragment).toList = false := by
    simp only [List.forall_mem_cons, List.not_mem_nil, false_imp_iff, implies_true, and_true]
    refine ⟨?_, ?_, ?_, ?_⟩ <;> exact not_isPrefixOf _ _ first inNumber (by decide)
  unfold isColor
  dsimp only
  split
  · next digits spelled =>
    rw [spelled] at first
    cases first
    cases inNumber
  · rw [if_neg, unnamed]
    rw [List.any_eq_true]
    rintro ⟨front, known, passed⟩
    rw [noCall front known] at passed
    cases passed

theorem isKeyword_of_numeric : isKeyword fragment = false := by
  rw [Bool.eq_false_iff, ne_eq, isKeyword_iff]
  exact Literal.not_mem_keywords_of_mem_numeric numeric

/-- No function, link, color or keyword is a numeric literal. -/
theorem not_accepts_of_numeric {category : Category}
    (other : category ∈ [Category.function, .link, .color, .keyword]) (registry : Registry) :
    ¬ category.Accepts registry fragment := by
  simp only [List.mem_cons, List.not_mem_nil, or_false] at other
  unfold Category.Accepts
  rw [not_not]
  rcases other with rfl | rfl | rfl | rfl
  · simp only [Category.function, calledName?_of_numeric numeric]
  · simp only [Category.link, isString_of_numeric numeric, isUrl_of_numeric numeric, Category.only]
    rfl
  · simp only [Category.color, isColor_of_numeric numeric, Category.only]
    rfl
  · simp only [Category.keyword, isKeyword_of_numeric numeric, Category.only]
    rfl

end Numeric

end Fragment

/-! ### Main result -/

namespace Context

variable {text : String}

/-- A text that is classified as a token among others. -/
def Lists (context : Context) (text key : String) : Prop :=
  ∃ classification, context.classify text = .ok classification ∧ key ∈ classification.tokens

theorem lists_iff {context : Context} {key : String} :
    context.Lists text key ↔ context.StandsFor text key := by
  constructor
  · rintro ⟨classification, classified, member⟩
    exact (mem_tokens classified).mp member
  · intro stands
    obtain ⟨classification, classified⟩ := exists_classify stands
    exact ⟨classification, classified, (mem_tokens classified).mpr stands⟩

/-- A text is classified as a token if the owner of the token accepts the text for it. -/
theorem lists_iff_of_owns {category : Category} (known : category ∈ Category.standard) {key : String}
    (owns : category.owns .builtin key = true) :
    standard.Lists text key ↔ key ∈ category.classify .builtin (trim text) := by
  rw [lists_iff]
  constructor
  · rintro ⟨other, listed, accepted⟩
    have same := Category.eq_of_owns known listed owns (Category.owns_of_mem_classify listed accepted)
    rw [same]
    exact accepted
  · exact fun accepted => ⟨category, known, accepted⟩

theorem lists_keyword {name : String} :
    Reference.parse name = .ok (.keyword name) ∧ standard.Lists text name ↔
      name = trim text ∧ (trim text).toList ∈ Literal.keywords := by
  have known : Category.keyword ∈ Category.standard := by simp [Category.standard]
  have owns (parsed : Reference.parse name = .ok (.keyword name)) :
      Category.keyword.owns .builtin name = true := by
    simp only [Category.keyword, parsed, Reference.isKeyword]
  rw [← Category.mem_classify_keyword .builtin]
  constructor
  · exact fun given => (lists_iff_of_owns known (owns given.1)).mp given.2
  · intro accepted
    obtain ⟨same, keyword⟩ := (Category.mem_classify_keyword .builtin).mp accepted
    have parsed : Reference.parse name = .ok (.keyword name) :=
      same ▸ Fragment.parse_of_isKeyword (Fragment.isKeyword_iff.mpr keyword)
    exact ⟨parsed, (lists_iff_of_owns known (owns parsed)).mpr accepted⟩

/-- How the standard context classifies a text, whose blanks at both ends are left out. -/
structure IsClassified (text : String) : Prop where
  integer : standard.Lists text "<integer>" ↔ (trim text).toList ∈ Literal.integers
  number : standard.Lists text "<number>" ↔ (trim text).toList ∈ Literal.numerals
  percentage : standard.Lists text "<percentage>" ↔ (trim text).toList ∈ Literal.percentages
  length : standard.Lists text "<length>" ↔ (trim text).toList ∈ Literal.lengths
  /-- The only keyword that a text may stand for is the text itself. -/
  keyword : ∀ name, Reference.parse name = .ok (.keyword name) ∧ standard.Lists text name ↔
    name = trim text ∧ (trim text).toList ∈ Literal.keywords
  /-- No function, link, color or keyword is a numeric literal. -/
  apart : (trim text).toList ∈ Literal.numeric →
    ∀ category ∈ [Category.function, .link, .color, .keyword],
      ¬ category.Accepts .builtin (trim text)
  /-- A text is refused if no category accepts it. -/
  refused : (∃ e, standard.classify text = .error e) ↔
    ∀ category ∈ Category.standard, ¬ category.Accepts .builtin (trim text)
  /-- The tokens are distinct and stand in the order of the categories that accept the text for them.
  The best one belongs to the first of these categories. -/
  ordered : ∀ classification, standard.classify text = .ok classification →
    classification.tokens.Nodup ∧
      classification.tokens = Category.standard.flatMap (·.classify .builtin (trim text)) ∧
      classification.tokens.head? = some classification.best ∧
      ∃ category, IsFirst (·.Accepts .builtin (trim text)) Category.standard category ∧
        category.key = classification.category ∧
        category.owns .builtin classification.best = true

theorem refused_iff : (∃ e, standard.classify text = .error e) ↔
    ∀ category ∈ Category.standard, ¬ category.Accepts .builtin (trim text) := by
  simp only [classify_eq_error, exists_and_left, exists_eq, and_true]
  constructor
  · intro unknown category known accepts
    obtain ⟨key, member⟩ := List.exists_mem_of_ne_nil _ accepts
    exact unknown ⟨key, category, known, member⟩
  · rintro none ⟨key, category, known, member⟩
    exact none category known (List.ne_nil_of_mem member)

/-- Literals are classified by the languages of integers, numbers, percentages, lengths and keywords. -/
theorem isClassified (text : String) : IsClassified text where
  integer := (lists_iff_of_owns (by simp [Category.standard]) rfl).trans
    (Category.mem_classify_integer .builtin)
  number := (lists_iff_of_owns (by simp [Category.standard]) rfl).trans
    (Category.mem_classify_number .builtin)
  percentage := (lists_iff_of_owns (by simp [Category.standard]) rfl).trans
    (Category.mem_classify_percentage .builtin)
  length := (lists_iff_of_owns (by simp [Category.standard]) rfl).trans
    (Category.mem_classify_length .builtin)
  keyword _ := lists_keyword
  apart numeric category other := Fragment.not_accepts_of_numeric numeric other .builtin
  refused := refused_iff
  ordered classification classified := by
    have outcome := classify_eq_ok classified
    rw [show standard.registry = .builtin from rfl,
      show standard.categories = Category.standard from rfl] at outcome
    obtain ⟨tokens, best, category, first, named, member⟩ := outcome
    have distinct := Category.nodup_flatMap_classify (trim text)
    have all : classification.tokens = Category.standard.flatMap (·.classify .builtin (trim text)) :=
      tokens.trans (eraseDups_eq_self distinct)
    exact ⟨all ▸ distinct, all, best, category, first, named,
      Category.owns_of_mem_classify first.mem member⟩

end Context

end ValueGrammar
