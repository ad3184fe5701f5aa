import ValueGrammar.Proofs.Category.Fragments
import ValueGrammar.Proofs.Expansion.Places
import ValueGrammar.Proofs.Number.Nearest
import ValueGrammar.Proofs.Slot.Forms

/-!
The literals that the built-in catalog puts into a value. Each of them is one fragment. A place
takes the literal that it is filled with if it is fillable, and the literal that a menu offers for
it if it is offerable: a keyword has to be spelled as keywords are spelled in values, and zero, which
all defaults of numeric tokens are, has to lie in the range or to be pulled to a number that does.
-/
namespace ValueGrammar

open Unicode Text Fragments

/-! ### The catalog -/

/-- A definition is primitive if its grammar is blank or is read as its key. -/
def Definition.readsAsKey (definition : Definition) : Bool :=
  match trimChars definition.grammar.toList with
  | [] => true
  | cs =>
    match Reference.read? cs with
    | some (reference, []) => reference.key == definition.key
    | _ => false

theorem Definition.isPrimitive_eq (definition : Definition) :
    definition.isPrimitive = definition.readsAsKey := by
  have again := trimChars_trimChars definition.grammar.toList
  unfold isPrimitive readsAsKey Reference.keyOf Reference.parse trim
  simp only [String.toList_ofList, again]
  cases trimChars definition.grammar.toList with
  | nil => rfl
  | cons c cs =>
    have solid : (String.ofList (c :: cs)).isEmpty = false := by
      rw [Bool.eq_false_iff]
      intro none
      have := congrArg String.toList (String.isEmpty_iff.mp none)
      simp at this
    rw [solid, Bool.false_or]
    dsimp only
    rcases Reference.read? (c :: cs) with - | ⟨reference, - | ⟨d, rest⟩⟩
    · rfl
    · rfl
    · rfl

namespace Catalog

def primitiveKeys : List String := [
  "<length>", "<percentage>", "<number>", "<integer>", "<color>", "<url>", "<string>",
  "fit-content()", "minmax()", "linear-gradient()", "radial-gradient()"]

/-- The numeric keys, each with the unit of its default. -/
def numericUnits : List (String × List Char) := [
  ("<integer>", []), ("<number>", []), ("<length>", ['p', 'x']), ("<percentage>", ['%'])]

def numericKeys : List String :=
  numericUnits.map (·.1)

def numericCategories : List String := ["integer", "number", "length"]

/-- Whether the default of a primitive symbol is one fragment that its own category takes for the
symbol. -/
def isSound (definition : Definition) : Bool :=
  definition.default?.any fun literal =>
    decide (Whole literal) &&
      (numericKeys.contains definition.key || (Number.read? literal.toList).isNone) &&
        (Category.owner? Category.standard .builtin definition.key).any fun category =>
          category.key != "keyword" &&
            numericCategories.contains category.key == numericKeys.contains definition.key &&
              (category.classify .builtin literal).contains definition.key

theorem definitions_sound :
    definitions.all (fun definition =>
      definition.key.toList.any (!isIdentifierChar ·) &&
        (primitiveKeys.contains definition.key == definition.readsAsKey) &&
          (!primitiveKeys.contains definition.key || isSound definition)) = true := by
  decide +kernel

theorem isPrimitive_iff {definition : Definition} (listed : definition ∈ definitions) :
    definition.isPrimitive = true ↔ definition.key ∈ primitiveKeys := by
  have checked := List.all_eq_true.mp definitions_sound definition listed
  simp only [Bool.and_eq_true, beq_iff_eq] at checked
  rw [definition.isPrimitive_eq, ← checked.1.2, List.contains_iff_mem]

theorem isSound_of_primitive {definition : Definition} (listed : definition ∈ definitions)
    (primitive : definition.key ∈ primitiveKeys) : isSound definition = true := by
  have checked := List.all_eq_true.mp definitions_sound definition listed
  simp only [Bool.and_eq_true, Bool.or_eq_true, Bool.not_eq_true'] at checked
  have known : primitiveKeys.contains definition.key = true := List.contains_iff_mem.mpr primitive
  rcases checked.2 with unknown | sound
  · rw [known] at unknown
    cases unknown
  · exact sound

/-- No keyword has a definition. -/
theorem find?_keyword {name : String} (letters : ∀ c ∈ name.toList, isIdentifierChar c = true) :
    Registry.builtin.find? name = none := by
  cases found : Registry.builtin.find? name with
  | none => rfl
  | some definition =>
    obtain ⟨listed, rfl⟩ := Registry.find?_eq_some found
    have checked := List.all_eq_true.mp definitions_sound definition listed
    simp only [Bool.and_eq_true, List.any_eq_true] at checked
    obtain ⟨⟨⟨c, member, strange⟩, -⟩, -⟩ := checked
    rw [letters c member] at strange
    cases strange

theorem exists_definition {key : String} (primitive : key ∈ primitiveKeys) :
    ∃ definition, Registry.builtin.find? key = some definition := by
  have all : primitiveKeys.all (fun key => (Registry.builtin.find? key).isSome) = true := by
    decide +kernel
  exact Option.isSome_iff_exists.mp (List.all_eq_true.mp all key primitive)

end Catalog

/-! ### Settled references -/

theorem Registry.cases_of_isFinal {registry : Registry} {reference : Reference}
    (final : registry.isFinal reference = true) :
    (∃ name, reference = .keyword name) ∨
      ∃ definition, registry.find? reference.key = some definition ∧
        definition.isPrimitive = true := by
  rcases Bool.or_eq_true_iff.mp final with keyword | primitive
  · left
    cases reference with
    | keyword name => exact ⟨name, rfl⟩
    | typed name ranges => cases keyword
    | function name arguments => cases keyword
  · exact Or.inr ((Option.any_eq_true _ _).mp primitive)

/-- A settled reference is a keyword without a definition or names a primitive symbol. -/
theorem Catalog.cases_of_isFinal {raw : String} {reference : Reference}
    (parsed : Reference.parse raw = .ok reference)
    (final : Registry.builtin.isFinal reference = true) :
    (∃ name, reference = .keyword name ∧ Reference.parse name = .ok (.keyword name) ∧
        Registry.builtin.find? name = none) ∨
      reference.key ∈ primitiveKeys := by
  have proper := Reference.proper_of_parse parsed
  rcases Registry.cases_of_isFinal final with ⟨name, rfl⟩ | ⟨definition, found, primitive⟩
  · left
    have back := Reference.parse_text proper
    change Reference.parse name = _ at back
    obtain ⟨-, letters⟩ :
        name.toList ≠ [] ∧ ∀ c ∈ name.toList, isIdentifierChar c = true := proper
    exact ⟨name, rfl, back, find?_keyword letters⟩
  · right
    obtain ⟨listed, same⟩ := Registry.find?_eq_some found
    rw [← same]
    exact (isPrimitive_iff listed).mp primitive

/-! ### The categories of primitive symbols -/

namespace Category

theorem magnitude?_of_numeric {category : Category} (known : category ∈ standard)
    (numeric : category.key ∈ Catalog.numericCategories) :
    category.magnitude? = Fragment.leadingNumber? := by
  simp only [standard, List.mem_cons, List.not_mem_nil, or_false] at known
  rcases known with rfl | rfl | rfl | rfl | rfl | rfl | rfl | rfl <;>
    first
      | rfl
      | exact absurd numeric (by decide)

theorem magnitude?_of_not_numeric {category : Category} (known : category ∈ standard)
    (other : category.key ∉ Catalog.numericCategories) (fragment : String) :
    category.magnitude? fragment = none := by
  simp only [standard, List.mem_cons, List.not_mem_nil, or_false] at known
  rcases known with rfl | rfl | rfl | rfl | rfl | rfl | rfl | rfl <;>
    first
      | rfl
      | exact absurd (by decide) other

theorem eq_keyword {category : Category} (known : category ∈ standard)
    (named : category.key = "keyword") : category = keyword := by
  simp only [standard, List.mem_cons, List.not_mem_nil, or_false] at known
  rcases known with rfl | rfl | rfl | rfl | rfl | rfl | rfl | rfl <;>
    first
      | rfl
      | exact absurd named (by decide)

theorem offer_of_not_keyword {category : Category} (known : category ∈ standard)
    (other : category.key ≠ "keyword") : category.offer = defaultOffer category.key := by
  simp only [standard, List.mem_cons, List.not_mem_nil, or_false] at known
  rcases known with rfl | rfl | rfl | rfl | rfl | rfl | rfl | rfl <;>
    first
      | rfl
      | exact absurd rfl other

end Category

/-- What the catalog has for a primitive symbol. -/
structure Catalog.Provides (key literal : String) (category : Category) : Prop where
  default : Registry.builtin.default? key = some literal
  whole : Whole literal
  noNumber : key ∉ numericKeys → Number.read? literal.toList = none
  owner : Context.standard.owner? key = some category
  known : category ∈ Category.standard
  notKeyword : category.key ≠ "keyword"
  numeric : category.key ∈ numericCategories ↔ key ∈ numericKeys
  accepted : key ∈ category.classify Registry.builtin literal

theorem Catalog.exists_provides {key : String} (primitive : key ∈ primitiveKeys) :
    ∃ literal category, Provides key literal category := by
  obtain ⟨definition, found⟩ := exists_definition primitive
  obtain ⟨listed, rfl⟩ := Registry.find?_eq_some found
  obtain ⟨literal, default, sound⟩ :=
    (Option.any_eq_true _ _).mp (isSound_of_primitive listed primitive)
  simp only [Bool.and_eq_true, Bool.or_eq_true, decide_eq_true_eq] at sound
  obtain ⟨⟨whole, number⟩, owned⟩ := sound
  obtain ⟨category, owner, checked⟩ := (Option.any_eq_true _ _).mp owned
  simp only [Bool.and_eq_true, bne_iff_ne, beq_iff_eq, List.contains_iff_mem] at checked
  obtain ⟨⟨notKeyword, numeric⟩, accepted⟩ := checked
  refine ⟨literal, category, ?_, whole, ?_, owner, List.mem_of_find?_eq_some owner, notKeyword, ?_,
    accepted⟩
  · rw [Registry.default?, found]
    exact default
  · intro other
    rcases number with numericKey | none
    · exact absurd (List.contains_iff_mem.mp numericKey) other
    · exact Option.isNone_iff_eq_none.mp none
  · rw [← List.contains_iff_mem, ← List.contains_iff_mem, numeric]

/-! ### Numbers with a unit -/

theorem Fragments.Whole.trim {text : String} (whole : Whole text) : Text.trim text = text := by
  rw [Text.trim, whole.fragment.trimmed, String.ofList_toList]

namespace Catalog

theorem default?_numeric {entry : String × List Char} (listed : entry ∈ numericUnits) :
    Registry.builtin.default? entry.1 = some ("0" ++ String.ofList entry.2) := by
  have all : numericUnits.all (fun entry => Registry.builtin.default? entry.1 ==
      some ("0" ++ String.ofList entry.2)) = true := by decide +kernel
  exact beq_iff_eq.mp (List.all_eq_true.mp all entry listed)

theorem read?_withUnit {entry : String × List Char} (listed : entry ∈ numericUnits) {x : Number}
    (finite : x.isFinite = true) :
    Number.read? (x.text ++ String.ofList entry.2).toList = some (x, entry.2) := by
  have stop : StopsBefore Decimal.endsNumber entry.2 := by
    simp only [numericUnits, List.mem_cons, List.not_mem_nil, or_false] at listed
    rcases listed with rfl | rfl | rfl | rfl
    · exact .nil _
    · exact .nil _
    · exact .cons (by decide) _
    · exact .cons (by decide) _
  rw [String.toList_append, String.toList_ofList]
  cases x with
  | negInf => cases finite
  | posInf => cases finite
  | finite negative magnitude => exact Number.read?_text_finite negative magnitude stop

theorem whole_withUnit {entry : String × List Char} (listed : entry ∈ numericUnits) {x : Number}
    (finite : x.isFinite = true) : Whole (x.text ++ String.ofList entry.2) := by
  have plain : numericUnits.all (fun entry => entry.2.all isPlain) = true := by decide
  exact Fragment.whole_of_read (read?_withUnit listed finite)
    (List.all_eq_true.mp (List.all_eq_true.mp plain entry listed))

/-- A finite number with the unit of a numeric key stands for that key; for the key of integers the
number has to be one. -/
theorem standsFor_withUnit {entry : String × List Char} (listed : entry ∈ numericUnits)
    {x : Number} (finite : x.isFinite = true)
    (integer : entry.1 = "<integer>" → Fragment.isInteger x.text = true) :
    Context.standard.StandsFor (x.text ++ String.ofList entry.2) entry.1 := by
  have read := read?_withUnit listed finite
  unfold Context.StandsFor
  rw [(whole_withUnit listed finite).trim]
  simp only [numericUnits, List.mem_cons, List.not_mem_nil, or_false] at listed
  rcases listed with rfl | rfl | rfl | rfl
  · refine ⟨Category.integer, by simp [Context.standard, Category.standard], ?_⟩
    exact Category.mem_only.mpr ⟨rfl, by simpa using integer rfl⟩
  · refine ⟨Category.number, by simp [Context.standard, Category.standard], ?_⟩
    refine Category.mem_only.mpr ⟨rfl, ?_⟩
    rw [Fragment.isNumber, read]
  · refine ⟨Category.length, by simp [Context.standard, Category.standard], ?_⟩
    have isLength : Fragment.dimension? (x.text ++ String.ofList ['p', 'x']) =
        some "<length>" := by
      have known : (['p', 'x'].all Char.isAlpha &&
          lengthUnits.contains (String.ofList (['p', 'x'].map Char.toLower))) = true := by
        decide +kernel
      rw [Fragment.dimension?, read]
      exact if_pos known
    exact Option.mem_toList.mpr isLength
  · refine ⟨Category.length, by simp [Context.standard, Category.standard], ?_⟩
    have isPercentage : Fragment.dimension? (x.text ++ String.ofList ['%']) =
        some "<percentage>" := by
      rw [Fragment.dimension?, read]
      rfl
    exact Option.mem_toList.mpr isPercentage

theorem mem_primitiveKeys_of_numeric {key : String} (numeric : key ∈ numericKeys) :
    key ∈ primitiveKeys := by
  have all : numericKeys.all primitiveKeys.contains = true := by decide
  exact List.contains_iff_mem.mp (List.all_eq_true.mp all key numeric)

theorem exists_unit {key : String} (numeric : key ∈ numericKeys) :
    ∃ entry ∈ numericUnits, entry.1 = key :=
  List.mem_map.mp numeric

end Catalog

/-! ### Places -/

namespace Place

def IsSettled (place : Place) : Prop :=
  ∃ reference, place.IsOf reference ∧ Registry.builtin.isFinal reference = true

/-- A place that takes what it is filled with: a keyword is spelled as in values, and the number of
the range that is nearest to zero is there, finite, and an integer where one is asked for. -/
structure IsFillable (place : Place) : Prop where
  keyword : Registry.builtin.contains place.key = false → Fragment.isKeyword place.key = true
  number : ∀ range ∈ place.range?, place.key ∈ Catalog.numericKeys →
    range.min ≤ range.max ∧ range.nearest.isFinite = true
  integer : ∀ range ∈ place.range?, place.key = "<integer>" →
    Fragment.isInteger range.nearest.text = true

/-- A place that takes what a menu offers for it: a keyword is spelled as in values, and zero lies in
the range of a number. -/
structure IsOfferable (place : Place) : Prop where
  keyword : Registry.builtin.contains place.key = false → Fragment.isKeyword place.key = true
  number : ∀ range ∈ place.range?, place.key ∈ Catalog.numericKeys →
    range.contains Number.zero = true

theorem isInteger_zero : Fragment.isInteger Number.zero.text = true := by
  rw [Number.text_zero]
  decide +kernel

theorem IsOfferable.isFillable {place : Place} (offerable : place.IsOfferable) :
    place.IsFillable := by
  refine ⟨offerable.keyword, fun range given numeric => ?_, fun range given integer => ?_⟩
  · have inside := offerable.number range given numeric
    rw [Range.nearest_of_contains inside]
    exact ⟨Range.ordered_of_contains inside, rfl⟩
  · have numeric : place.key ∈ Catalog.numericKeys := by
      rw [integer]
      decide
    rw [Range.nearest_of_contains (offerable.number range given numeric)]
    exact isInteger_zero

/-- A settled place is that of a keyword, which has no range, or of a primitive symbol. -/
theorem IsSettled.cases {place : Place} (settled : place.IsSettled) :
    (Reference.parse place.key = .ok (.keyword place.key) ∧
        Registry.builtin.find? place.key = none ∧ place.range? = none) ∨
      place.key ∈ Catalog.primitiveKeys := by
  obtain ⟨reference, isOf, final⟩ := settled
  rcases Catalog.cases_of_isFinal isOf.parsed final with ⟨name, rfl, parsed, unknown⟩ | primitive
  · have same : place.key = name := isOf.key
    rw [same]
    exact Or.inl ⟨parsed, unknown, isOf.range⟩
  · exact Or.inr (isOf.key ▸ primitive)

theorem default?_keyword {key : String} (parsed : Reference.parse key = .ok (.keyword key))
    (unknown : Registry.builtin.find? key = none) :
    Registry.builtin.default? key = some key := by
  rw [Registry.default?, unknown, parsed]

theorem whole_keyword {key : String} (parsed : Reference.parse key = .ok (.keyword key)) :
    Whole key := by
  obtain ⟨nonempty, letters⟩ :
      key.toList ≠ [] ∧ ∀ c ∈ key.toList, isIdentifierChar c = true :=
    Reference.proper_of_parse parsed
  exact whole_of_plain nonempty fun c member => isPlain_of_isIdentifierChar (letters c member)

theorem takes_keyword {place : Place} (parsed : Reference.parse place.key = .ok (.keyword place.key))
    (keyword : Fragment.isKeyword place.key = true) (free : place.range? = none) :
    Context.standard.Takes place place.key := by
  constructor
  · refine ⟨Category.keyword, by simp [Context.standard, Category.standard], ?_⟩
    rw [(whole_keyword parsed).trim]
    exact Category.mem_only.mpr ⟨rfl, keyword⟩
  · intro range given
    rw [free] at given
    cases given

/-- The literal for a place: the default of its key, fitted into its range. -/
theorem filler_eq {place : Place} {literal : String}
    (default : Registry.builtin.default? place.key = some literal) :
    Context.standard.filler place =
      .ok (match place.range? with
        | some range => range.fit literal
        | none => literal) := by
  have found : Context.standard.registry.default? place.key = some literal := default
  rw [Context.filler, found]
  cases place.range? <;> rfl

theorem takes_number {place : Place} {entry : String × List Char}
    (listed : entry ∈ Catalog.numericUnits) (named : entry.1 = place.key) {x : Number}
    (finite : x.isFinite = true)
    (integer : place.key = "<integer>" → Fragment.isInteger x.text = true)
    (inside : ∀ range ∈ place.range?, range.contains x = true) :
    Context.standard.Takes place (x.text ++ String.ofList entry.2) := by
  have numeric : place.key ∈ Catalog.numericKeys := List.mem_map.mpr ⟨entry, listed, named⟩
  constructor
  · rw [← named]
    exact Catalog.standsFor_withUnit listed finite (named ▸ integer)
  · intro range given y measured
    obtain ⟨literal, category, provides⟩ :=
      Catalog.exists_provides (Catalog.mem_primitiveKeys_of_numeric numeric)
    have byNumber := Category.magnitude?_of_numeric provides.known (provides.numeric.mpr numeric)
    rw [Context.magnitude?, provides.owner, Option.bind_some, byNumber, Fragment.leadingNumber?,
      Catalog.read?_withUnit listed finite] at measured
    cases measured
    exact inside range given

theorem takes_other {place : Place} {literal : String} {category : Category}
    (provides : Catalog.Provides place.key literal category)
    (other : place.key ∉ Catalog.numericKeys) : Context.standard.Takes place literal := by
  constructor
  · refine ⟨category, provides.known, ?_⟩
    rw [provides.whole.trim]
    exact provides.accepted
  · intro range given x measured
    rw [Context.magnitude?, provides.owner, Option.bind_some,
      Category.magnitude?_of_not_numeric provides.known
        fun numeric => other (provides.numeric.mp numeric)] at measured
    cases measured

theorem whole_fit {entry : String × List Char} (listed : entry ∈ Catalog.numericUnits)
    (range : Range) : Whole (range.fit ("0" ++ String.ofList entry.2)) := by
  have zero := Catalog.whole_withUnit listed (x := Number.zero) rfl
  rw [Number.text_zero] at zero
  have read := Catalog.read?_withUnit listed (x := Number.zero) rfl
  rw [Number.text_zero] at read
  rw [Range.fit, read]
  dsimp only
  split
  · next moved => exact Catalog.whole_withUnit listed moved.2.2
  · exact zero

/-- A literal for a place that is one fragment, and that the place takes if it is fillable. -/
def HasFiller (place : Place) : Prop :=
  ∃ literal, Context.standard.filler place = .ok literal ∧ Whole literal ∧
    (place.IsFillable → Context.standard.Takes place literal)

theorem hasFiller_keyword {place : Place} (parsed : Reference.parse place.key = .ok (.keyword place.key))
    (unknown : Registry.builtin.find? place.key = none) (free : place.range? = none) :
    place.HasFiller := by
  refine ⟨place.key, ?_, whole_keyword parsed, fun fillable => ?_⟩
  · rw [filler_eq (default?_keyword parsed unknown), free]
  · have undefined : Registry.builtin.contains place.key = false := by
      rw [Registry.contains, unknown]
      rfl
    exact takes_keyword parsed (fillable.keyword undefined) free

/-- The literal of a numeric place is zero with its unit, or the number of the range nearest to it. -/
theorem hasFiller_numeric {place : Place} (numeric : place.key ∈ Catalog.numericKeys) :
    place.HasFiller := by
  obtain ⟨entry, listed, named⟩ := Catalog.exists_unit numeric
  have default := Catalog.default?_numeric listed
  rw [named] at default
  unfold HasFiller
  rw [filler_eq default]
  cases given : place.range? with
  | none =>
    have text : "0" ++ String.ofList entry.2 = Number.zero.text ++ String.ofList entry.2 := by
      rw [Number.text_zero]
    rw [text]
    refine ⟨_, rfl, Catalog.whole_withUnit listed rfl, fun _ => ?_⟩
    exact takes_number listed named rfl (fun _ => isInteger_zero) (by simp [given])
  | some range =>
    refine ⟨_, rfl, whole_fit listed range, fun fillable => ?_⟩
    obtain ⟨ordered, finite⟩ := fillable.number range given numeric
    have read := Catalog.read?_withUnit listed (x := Number.zero) rfl
    rw [Number.text_zero] at read
    dsimp only
    rw [Range.fit_zero read ordered finite]
    apply takes_number listed named finite (fillable.integer range given)
    intro range' given'
    rw [given] at given'
    cases given'
    exact Range.contains_nearest ordered

/-- The literal of any other primitive symbol has no number, and no range changes it. -/
theorem hasFiller_other {place : Place} {literal : String} {category : Category}
    (provides : Catalog.Provides place.key literal category)
    (other : place.key ∉ Catalog.numericKeys) : place.HasFiller := by
  unfold HasFiller
  rw [filler_eq provides.default]
  have unchanged : (match place.range? with
      | some range => range.fit literal
      | none => literal) = literal := by
    cases place.range? with
    | none => rfl
    | some range => exact Range.fit_of_no_number (provides.noNumber other) range
  rw [unchanged]
  exact ⟨literal, rfl, provides.whole, fun _ => takes_other provides other⟩

theorem IsSettled.hasFiller {place : Place} (settled : place.IsSettled) : place.HasFiller := by
  rcases settled.cases with ⟨parsed, unknown, free⟩ | primitive
  · exact hasFiller_keyword parsed unknown free
  · obtain ⟨literal, category, provides⟩ := Catalog.exists_provides primitive
    by_cases numeric : place.key ∈ Catalog.numericKeys
    · exact hasFiller_numeric numeric
    · exact hasFiller_other provides numeric

/-- The default of an offerable place needs no fitting. -/
theorem filler_of_offerable {place : Place} (settled : place.IsSettled)
    (offerable : place.IsOfferable) {literal : String}
    (default : Registry.builtin.default? place.key = some literal) :
    Context.standard.filler place = .ok literal := by
  rw [filler_eq default]
  cases given : place.range? with
  | none => rfl
  | some range =>
    rcases settled.cases with ⟨-, -, free⟩ | primitive
    · rw [free] at given
      cases given
    · by_cases numeric : place.key ∈ Catalog.numericKeys
      · obtain ⟨entry, listed, named⟩ := Catalog.exists_unit numeric
        have zero := Catalog.default?_numeric listed
        rw [named, default] at zero
        cases zero
        have read := Catalog.read?_withUnit listed (x := Number.zero) rfl
        rw [Number.text_zero] at read
        exact congrArg Except.ok (Range.fit_of_contains read (offerable.number range given numeric))
      · obtain ⟨literal', category, provides⟩ := Catalog.exists_provides primitive
        have same := provides.default
        rw [default] at same
        cases same
        exact congrArg Except.ok (Range.fit_of_no_number (provides.noNumber numeric) range)

/-- A menu offers the default of a settled place, which is one fragment and which the place takes if
it is offerable. -/
theorem IsSettled.offer {place : Place} (settled : place.IsSettled) {category : Category}
    (owner : Context.standard.owner? place.key = some category) :
    (category.offer Registry.builtin place.key).token = place.key ∧
      Whole (category.offer Registry.builtin place.key).value ∧
        (place.IsOfferable →
          Context.standard.Takes place (category.offer Registry.builtin place.key).value) := by
  obtain ⟨literal, default, whole, offer⟩ : ∃ literal,
      Registry.builtin.default? place.key = some literal ∧ Whole literal ∧
        (category.offer Registry.builtin place.key).value = literal ∧
          (category.offer Registry.builtin place.key).token = place.key := by
    have found : Category.owner? Category.standard .builtin place.key = some category := owner
    have known : category ∈ Category.standard := List.mem_of_find?_eq_some found
    have asDefault {literal : String} (other : category.key ≠ "keyword")
        (default : Registry.builtin.default? place.key = some literal) :
        (category.offer Registry.builtin place.key).value = literal ∧
          (category.offer Registry.builtin place.key).token = place.key := by
      rw [Category.offer_of_not_keyword known other, Category.defaultOffer, default]
      exact ⟨rfl, rfl⟩
    rcases settled.cases with ⟨parsed, unknown, -⟩ | primitive
    · have default := default?_keyword parsed unknown
      refine ⟨place.key, default, whole_keyword parsed, ?_⟩
      by_cases named : category.key = "keyword"
      · rw [Category.eq_keyword known named]
        exact ⟨rfl, rfl⟩
      · exact asDefault named default
    · obtain ⟨literal, category', provides⟩ := Catalog.exists_provides primitive
      have same := provides.owner
      rw [owner] at same
      cases same
      exact ⟨literal, provides.default, provides.whole,
        asDefault provides.notKeyword provides.default⟩
  rw [offer.1]
  refine ⟨offer.2, whole, fun offerable => ?_⟩
  obtain ⟨filler, filled, -, takes⟩ := settled.hasFiller
  rw [filler_of_offerable settled offerable default] at filled
  cases filled
  exact takes offerable.isFillable

end Place

/-! ### Expansions -/

/-- The places of the variants of a structured expansion are settled. -/
theorem isSettled_of_mem {grammar : String} {expansion : Expansion} {items : List Lexeme}
    {tree : Tree} (derivation : Derivation Context.standard grammar expansion items tree)
    {variant : Variant} (member : variant ∈ expansion.variants) {place : Place}
    (inside : place ∈ variant.places) : place.IsSettled :=
  derivation.exists_final member inside

/-- The standard context has a literal for every place. -/
theorem fills_standard {grammar : String} {expansion : Expansion} {items : List Lexeme}
    {tree : Tree} (derivation : Derivation Context.standard grammar expansion items tree) :
    Context.standard.Fills expansion := by
  intro variant member place inside
  obtain ⟨literal, filled, -⟩ := (isSettled_of_mem derivation member inside).hasFiller
  exact ⟨literal, filled⟩

/-- The literals for the places of a variant are one fragment each. -/
theorem whole_of_filledBy {grammar : String} {expansion : Expansion} {items : List Lexeme}
    {tree : Tree} (derivation : Derivation Context.standard grammar expansion items tree)
    {variant : Variant} (member : variant ∈ expansion.variants) {count : Nat}
    {literals : List String}
    (filled : Context.standard.FilledBy (variant.places.drop count) literals) :
    ∀ literal ∈ literals, Whole literal := by
  intro literal inside
  obtain ⟨place, placed, given⟩ := exists_mem_of_forall₂ filled.flip inside
  have settled := isSettled_of_mem derivation member (List.mem_of_mem_drop placed)
  obtain ⟨literal', filler, whole, -⟩ := settled.hasFiller
  have same := given.symm.trans filler
  cases same
  exact whole

/-- Fillable places take the literals that they are filled with. -/
theorem takes_of_filledBy {places : List Place} {literals : List String}
    (filled : Context.standard.FilledBy places literals)
    (settled : ∀ place ∈ places, place.IsSettled) (fillable : ∀ place ∈ places, place.IsFillable) :
    List.Forall₂ Context.standard.Takes places literals := by
  unfold Context.FilledBy at filled
  induction filled with
  | nil => exact .nil
  | @cons place literal places literals given later ih =>
    obtain ⟨literal', filler, -, takes⟩ := (settled place List.mem_cons_self).hasFiller
    have same := given.symm.trans filler
    cases same
    exact .cons (takes (fillable place List.mem_cons_self))
      (ih (fun other inside => settled other (List.mem_cons_of_mem place inside))
        fun other inside => fillable other (List.mem_cons_of_mem place inside))

end ValueGrammar
