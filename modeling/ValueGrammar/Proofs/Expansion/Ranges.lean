import ValueGrammar.Proofs.Expansion.Places
import ValueGrammar.Proofs.Lexeme.Trimming
import ValueGrammar.Proofs.Number.Nearest
import ValueGrammar.Proofs.Registry.Unfolding

/-!
Ranges behind definitions. The tokens of a substituted grammar have the ranges of its leaves, in
order: their own and those handed down to them. A place accepts a number only if all these ranges
hold it. Functions have no ranges and hand none down.
-/
namespace ValueGrammar

/-! ### Numbers in the range of a reference -/

/-- A number lies in the range in force exactly if it lies in all the ranges. -/
theorem Reference.contains_range? {reference : Reference} {x : Number} :
    (∀ range ∈ reference.range?, range.contains x = true) ↔
      ∀ range ∈ reference.ranges, range.contains x = true := by
  unfold range?
  split
  · next none => simp [none]
  · have everywhere : Range.unbounded.contains x = true := by
      cases x <;> rfl
    simp [Range.contains_foldl, everywhere]

/-- The number of a fragment that a place accepts lies in the range of the place. -/
theorem Context.contains_of_accepts {context : Context} {place : Place} {fragment : DraftFragment}
    {x : Number} (accepted : context.accepts place fragment = true)
    (counted : context.magnitude? place.key fragment.text = some x) :
    ∀ range ∈ place.range?, range.contains x = true := by
  intro range given
  simp only [accepts, counted, Option.mem_def.mp given, Bool.and_eq_true] at accepted
  exact accepted.2

/-! ### Leaves as they are written -/

/-- A text that names the symbol of a leaf, with the ranges of the leaf and no others. -/
def Leaf.IsWritten (leaf : Leaf) (text : String) : Prop :=
  ∃ reference, Reference.parse text = .ok reference ∧ reference.key = leaf.reference.key ∧
    reference.isTyped = leaf.reference.isTyped ∧ reference.ranges = leaf.ranges

/-- The leaves of a run are references that have been read. -/
theorem Registry.Unfolds.proper {registry : Registry} {way : List Reference} {items : List Lexeme}
    {leaves : List Leaf} (unfolds : registry.Unfolds way items leaves) :
    ∀ leaf ∈ leaves, leaf.reference.Proper := by
  induction unfolds with
  | nil => exact fun leaf member => by cases member
  | other _ _ ih => exact ih
  | kept parsed _ _ ih =>
    intro leaf member
    rcases List.mem_cons.mp member with rfl | later
    · exact Reference.proper_of_parse parsed
    · exact ih leaf later
  | opened _ _ _ _ _ inside later =>
    intro leaf member
    exact (List.mem_append.mp member).elim (inside leaf) (later leaf)

theorem Leaf.isWritten_narrowed {leaf : Leaf} (proper : leaf.reference.Proper) :
    leaf.IsWritten leaf.narrowed.text := by
  refine ⟨leaf.narrowed, Reference.parse_text (proper.narrowedBy _), leaf.key_narrowed, ?_,
    leaf.ranges_narrowed⟩
  unfold Leaf.narrowed
  cases leaf.reference <;> rfl

/-- The tokens of a substituted grammar are its leaves as they are written. -/
theorem Registry.Writes.isWritten {registry : Registry} {unknown : List String}
    {leaves : List Leaf} {result : Substitution} (writes : registry.Writes unknown leaves result)
    (proper : ∀ leaf ∈ leaves, leaf.reference.Proper) :
    List.Forall₂ (fun text leaf => leaf.IsWritten text) (Lexeme.tokens result.items) leaves := by
  rw [writes.tokens, List.forall₂_map_left_iff, List.forall₂_same]
  exact fun leaf member => Leaf.isWritten_narrowed (proper leaf member)

/-- The range of a place holds the numbers that lie in all the ranges of its leaf. -/
theorem Leaf.IsWritten.contains_range? {leaf : Leaf} {place : Place} {reference : Reference}
    (written : leaf.IsWritten place.token) (isOf : place.IsOf reference) {x : Number} :
    (∀ range ∈ place.range?, range.contains x = true) ↔
      ∀ range ∈ leaf.ranges, range.contains x = true := by
  obtain ⟨reference', parsed, -, -, ranges⟩ := written
  rw [isOf.parsed] at parsed
  cases parsed
  rw [isOf.range, Reference.contains_range?, ranges]

/-! ### Main result -/

namespace Context

/-- Every token that substitution leaves has the ranges of its leaf: its own, then those of the typed
references that it stands behind, from the innermost outwards, up to the first function among them.
A number lies in the range of a place exactly if it lies in all of these, and no other number is
accepted there. -/
theorem ranges_handed_down {context : Context} {grammar : String} {substitution : Substitution}
    (substituted : context.registry.substitute grammar = .ok substitution) :
    ∃ items leaves, Lexeme.ofGrammar grammar = .ok items ∧
      context.registry.Unfolds [] items leaves ∧
      (∀ others, context.registry.Unfolds [] items others → others = leaves) ∧
      (∀ leaf ∈ leaves, leaf.ranges =
        if leaf.reference.isTyped then leaf.reference.ranges ++ Reference.handed leaf.way else []) ∧
      List.Forall₂ (fun text leaf => leaf.IsWritten text) (Lexeme.tokens substitution.items) leaves ∧
      ∀ expansion, context.expand grammar = .ok expansion → expansion.isStructured = true →
        ∀ variant ∈ expansion.variants, ∀ place ∈ variant.places,
          (∃ leaf ∈ leaves, leaf.IsWritten place.token) ∧
          ∀ leaf ∈ leaves, leaf.IsWritten place.token →
            (∀ x, (∀ range ∈ place.range?, range.contains x = true) ↔
              ∀ range ∈ leaf.ranges, range.contains x = true) ∧
            ∀ fragment x, context.accepts place fragment = true →
              context.magnitude? place.key fragment.text = some x →
                ∀ range ∈ leaf.ranges, range.contains x = true := by
  obtain ⟨items, leaves, lexed, unfolds, writes⟩ :=
    Registry.exists_unfolds_of_substitute substituted
  have written := writes.isWritten unfolds.proper
  refine ⟨items, leaves, lexed, unfolds, fun others other => unfolds.unique other,
    fun leaf _ => leaf.ranges_eq, written, ?_⟩
  intro expansion expanded structured variant member place inside
  obtain ⟨left, tree, derivation⟩ := exists_derivation expanded structured
  have same : left = substitution.items := by
    have trimmed := Registry.substitute_trim.mpr substituted
    rw [derivation.substituted] at trimmed
    cases trimmed
    rfl
  obtain ⟨item, reference, isOf⟩ := derivation.exists_token member inside
  have token := Lexeme.mem_tokens.mpr (same ▸ item)
  obtain ⟨leaf, among, ofLeaf⟩ := exists_mem_of_forall₂ written token
  refine ⟨⟨leaf, among, ofLeaf⟩, fun leaf' _ ofLeaf' => ?_⟩
  refine ⟨fun x => ofLeaf'.contains_range? isOf, fun fragment x accepted counted => ?_⟩
  exact (ofLeaf'.contains_range? isOf).mp (contains_of_accepts accepted counted)

/-- The range of an alpha value is handed down to both alternatives, behind the ranges there. -/
theorem ranges_handed_down_alpha_value : ∃ substitution items leaves,
    standard.registry.substitute "<alpha-value [0,0.5]>" = .ok substitution ∧
      Lexeme.tokens substitution.items =
        ["<number [0,1] [0,0.5]>", "<percentage [0,100] [0,0.5]>"] ∧
      Lexeme.ofGrammar "<alpha-value [0,0.5]>" = .ok items ∧
      standard.registry.Unfolds [] items leaves ∧
      List.Forall₂ (fun text leaf => leaf.IsWritten text) (Lexeme.tokens substitution.items)
        leaves := by
  have computed : (standard.registry.substitute "<alpha-value [0,0.5]>").toOption.any
      (fun substitution => Lexeme.tokens substitution.items ==
        ["<number [0,1] [0,0.5]>", "<percentage [0,100] [0,0.5]>"]) = true := by
    decide +kernel
  obtain ⟨substitution, substituted, tokens⟩ := exists_ok_of_any computed
  obtain ⟨items, leaves, lexed, unfolds, -, -, written, -⟩ := ranges_handed_down substituted
  exact ⟨substitution, items, leaves, substituted, eq_of_beq tokens, lexed, unfolds, written⟩

/-- Numbers, a function that stands for a number, and a size that is a call of it. -/
def scaled : Context :=
  ⟨⟨[⟨"<number>", "<number>", none⟩, ⟨"scale()", "<number>", none⟩, ⟨"<size>", "scale(x)", none⟩],
    by decide +kernel⟩, Category.standard, .standard⟩

theorem composed_scaled_size {reference : Reference} (named : reference.isKeyword = false)
    (key : reference.key = "<size>") :
    scaled.registry.Composed reference ⟨"<size>", "scale(x)", none⟩ where
  named := named
  found := by
    rw [key]
    decide +kernel
  replaced := by decide +kernel

theorem composed_scaled_scale :
    scaled.registry.Composed (.function "scale" "x") ⟨"scale()", "<number>", none⟩ where
  named := rfl
  found := by decide +kernel
  replaced := by decide +kernel

theorem not_composed_scaled_number (definition : Definition) :
    ¬ scaled.registry.Composed (.typed "number" []) definition := by
  intro composed
  have final : scaled.registry.isFinal (.typed "number" []) = true := by decide +kernel
  rw [composed.not_final] at final
  cases final

/-- The number is reached through the function and the size, whose range does not hold seven. -/
theorem exists_unfolds_scaled : ∃ items leaf x,
    Lexeme.ofGrammar "<size [0,5]>" = .ok items ∧ scaled.registry.Unfolds [] items [leaf] ∧
      leaf.reference = .typed "number" [] ∧ Fragment.leadingNumber? "7" = some x ∧
      ∃ range ∈ leaf.way.flatMap Reference.ranges, range.contains x = false := by
  have parsedSize : (Reference.parse "<size [0,5]>").toOption.any (fun reference =>
      !reference.isKeyword && reference.key == "<size>" &&
        (Fragment.leadingNumber? "7").any fun x =>
          reference.ranges.any fun range => !range.contains x) = true := by
    decide +kernel
  have parsedScale : (Reference.parse "scale(x)").toOption.any (· == .function "scale" "x") = true := by
    decide +kernel
  have parsedNumber : (Reference.parse "<number>").toOption.any (· == .typed "number" []) = true := by
    decide +kernel
  have lexedSize : (Lexeme.ofGrammar "<size [0,5]>").toOption.any (· == [.token "<size [0,5]>"]) =
      true := by
    decide +kernel
  have lexedScale : (Lexeme.ofGrammar "scale(x)").toOption.any (· == [.token "scale(x)"]) = true := by
    decide +kernel
  have lexedNumber : (Lexeme.ofGrammar "<number>").toOption.any (· == [.token "<number>"]) = true := by
    decide +kernel
  obtain ⟨size, parsedSize, checked⟩ := exists_ok_of_any parsedSize
  obtain ⟨scale, parsedScale, isScale⟩ := exists_ok_of_any parsedScale
  obtain ⟨number, parsedNumber, isNumber⟩ := exists_ok_of_any parsedNumber
  obtain ⟨items, lexedSize, isSize⟩ := exists_ok_of_any lexedSize
  obtain ⟨scaleItems, lexedScale, isScaleItem⟩ := exists_ok_of_any lexedScale
  obtain ⟨numberItems, lexedNumber, isNumberItem⟩ := exists_ok_of_any lexedNumber
  cases eq_of_beq isScale
  cases eq_of_beq isNumber
  cases eq_of_beq isSize
  cases eq_of_beq isScaleItem
  cases eq_of_beq isNumberItem
  simp only [Bool.and_eq_true, Bool.not_eq_true', beq_iff_eq, Option.any_eq_true_iff_get,
    List.any_eq_true] at checked
  obtain ⟨⟨named, key⟩, counted, range, member, outside⟩ := checked
  obtain ⟨x, seven⟩ := Option.isSome_iff_exists.mp counted
  refine ⟨_, ⟨.typed "number" [], [.function "scale" "x", size]⟩, x, lexedSize, ?_, rfl, seven, range,
    List.mem_flatMap.mpr ⟨size, by simp, member⟩, ?_⟩
  · have inNumber : scaled.registry.Unfolds [.function "scale" "x", size] [.token "<number>"] _ :=
      .kept parsedNumber not_composed_scaled_number (.nil _)
    have inScale := Registry.Unfolds.opened parsedScale composed_scaled_scale lexedNumber inNumber
      (.nil [size])
    exact .opened parsedSize (composed_scaled_size named key) lexedScale inScale (.nil [])
  · simpa only [Option.get_of_eq_some counted seven] using outside

/-- The range of the size is not handed down through the function: the number inside has no range, and
seven is accepted for it. -/
theorem ranges_not_handed_down_scaled : ∃ items leaf substitution expansion variant place fragment x,
    Lexeme.ofGrammar "<size [0,5]>" = .ok items ∧ scaled.registry.Unfolds [] items [leaf] ∧
      scaled.registry.substitute "<size [0,5]>" = .ok substitution ∧
      Lexeme.tokens substitution.items = ["<number>"] ∧
      Reference.parse "<number>" = .ok leaf.reference ∧ leaf.reference.isTyped = true ∧
      leaf.reference.ranges ≠ leaf.reference.ranges ++ leaf.way.flatMap Reference.ranges ∧
      scaled.expand "<size [0,5]>" = .ok expansion ∧ expansion.isStructured = true ∧
      variant ∈ expansion.variants ∧ place ∈ variant.places ∧ place.token = "<number>" ∧
      scaled.accepts place fragment = true ∧ scaled.magnitude? place.key fragment.text = some x ∧
      ∃ range ∈ leaf.way.flatMap Reference.ranges, range.contains x = false := by
  obtain ⟨items, leaf, x, lexed, unfolds, reference, seven, range, member, outside⟩ :=
    exists_unfolds_scaled
  have parsed : (Reference.parse "<number>").toOption.any (· == .typed "number" []) = true := by
    decide +kernel
  have replaced : (scaled.registry.substitute "<size [0,5]>").toOption.any (fun substitution =>
      Lexeme.tokens substitution.items == ["<number>"]) = true := by
    decide +kernel
  have accepted : (scaled.expand "<size [0,5]>").toOption.any (fun expansion =>
      expansion.isStructured && expansion.variants.any fun variant => variant.places.any fun place =>
        place.token == "<number>" && (scaled.classify "7").toOption.any fun classification =>
          scaled.accepts place ⟨"7", classification⟩ &&
            scaled.magnitude? place.key "7" == Fragment.leadingNumber? "7") = true := by
    decide +kernel
  obtain ⟨number, parsed, isNumber⟩ := exists_ok_of_any parsed
  obtain ⟨substitution, substituted, tokens⟩ := exists_ok_of_any replaced
  obtain ⟨expansion, expanded, checked⟩ := exists_ok_of_any accepted
  obtain ⟨structured, variants⟩ := Bool.and_eq_true_iff.mp checked
  obtain ⟨variant, among, places⟩ := List.any_eq_true.mp variants
  obtain ⟨place, inside, checked⟩ := List.any_eq_true.mp places
  obtain ⟨token, classified⟩ := Bool.and_eq_true_iff.mp checked
  obtain ⟨classification, -, checked⟩ := exists_ok_of_any classified
  obtain ⟨accepted, counted⟩ := Bool.and_eq_true_iff.mp checked
  cases eq_of_beq isNumber
  refine ⟨items, leaf, substitution, expansion, variant, place, ⟨"7", classification⟩, x, lexed,
    unfolds, substituted, eq_of_beq tokens, reference ▸ parsed, reference ▸ rfl, ?_, expanded,
    structured, among, inside, eq_of_beq token, accepted, (eq_of_beq counted).trans seven, range,
    member, outside⟩
  intro same
  rw [reference] at same
  have none : leaf.way.flatMap Reference.ranges = [] := same.symm
  rw [none] at member
  cases member

end Context

end ValueGrammar
