import ValueGrammar.Proofs.Slot.Defaults
import ValueGrammar.Proofs.Slot.Matching

/-!
Owners of tokens. A context that has been built has an owner for every primitive symbol, and keywords
belong to the category of keywords. Substitution leaves no other tokens, so no place of a variant is
without an owner, and a menu leaves out only the variants that are at their end.
-/
namespace ValueGrammar

open Catalog

namespace Context

def OwnsPrimitives (context : Context) : Prop :=
  ∀ key definition, context.registry.find? key = some definition → definition.isPrimitive = true →
    ∃ category, context.owner? key = some category

variable {context : Context}

/-- A token that some category owns has a first one that does. -/
theorem exists_owner {key : String} {category : Category} (known : category ∈ context.categories)
    (owns : category.owns context.registry key = true) :
    ∃ first, context.owner? key = some first := by
  have found : (context.categories.find? (·.owns context.registry key)).isSome = true :=
    List.find?_isSome.mpr ⟨category, known, owns⟩
  exact Option.isSome_iff_exists.mp found

/-- A context is built only if every primitive symbol has an owner. -/
theorem ownsPrimitives_of_build {builder : Builder} (built : builder.build = .ok context) :
    context.OwnsPrimitives := by
  obtain ⟨registry, -, checked⟩ := bind_eq_ok.mp built
  split at checked
  · cases checked
  · next unowned =>
    cases checked
    intro key definition found primitive
    obtain ⟨listed, rfl⟩ := Registry.find?_eq_some found
    have owned := List.find?_eq_none.mp unowned definition listed
    simp only [primitive, Bool.true_and, Bool.not_eq_true', Bool.not_eq_false, Builder.isOwned,
      List.any_eq_true, Bool.and_eq_true] at owned
    obtain ⟨category, known, -, owns⟩ := owned
    exact exists_owner known owns

/-- A context has the categories that it has been built with. -/
theorem categories_of_build {builder : Builder} (built : builder.build = .ok context) :
    context.categories = builder.categories := by
  obtain ⟨registry, -, checked⟩ := bind_eq_ok.mp built
  split at checked
  · cases checked
  · cases checked
    rfl

theorem ownsPrimitives_standard : standard.OwnsPrimitives := by
  intro key definition found primitive
  obtain ⟨listed, rfl⟩ := Registry.find?_eq_some found
  obtain ⟨literal, category, provides⟩ := exists_provides ((isPrimitive_iff listed).mp primitive)
  exact ⟨category, provides.owner⟩

/-- Keywords belong to the category of keywords, or to one in front of it. -/
theorem exists_owner_keyword (keywords : Category.keyword ∈ context.categories) {name : String}
    (parsed : Reference.parse name = .ok (.keyword name)) :
    ∃ category, context.owner? name = some category := by
  have owns : Category.keyword.owns context.registry name = true := by
    simp only [Category.keyword, parsed, Reference.isKeyword]
  exact exists_owner keywords owns

end Context

namespace Derivation

variable {context : Context} {grammar : String} {expansion : Expansion} {items : List Lexeme}
  {tree : Tree}

theorem places_ne_nil (derivation : Derivation context grammar expansion items tree)
    {variant : Variant} (member : variant ∈ expansion.variants) : variant.places ≠ [] := by
  obtain ⟨piece, -, made⟩ := (Variant.mem_ofPieces derivation.variants).mp member
  obtain ⟨nonempty, -, tokens⟩ := Variant.ofPiece?_eq_some.mp made
  intro none
  rw [none, List.forall₂_nil_right_iff] at tokens
  exact nonempty tokens

/-- Every place is that of a keyword or of a primitive symbol, and has an owner. -/
theorem exists_owner (derivation : Derivation context grammar expansion items tree)
    (owns : context.OwnsPrimitives) (keywords : Category.keyword ∈ context.categories)
    {variant : Variant} (member : variant ∈ expansion.variants) {place : Place}
    (inside : place ∈ variant.places) : ∃ reference category, place.IsOf reference ∧
      (reference = .keyword place.key ∨ ∃ definition,
        context.registry.find? place.key = some definition ∧ definition.isPrimitive = true) ∧
      context.owner? place.key = some category := by
  obtain ⟨reference, isOf, final⟩ := derivation.exists_final member inside
  rcases Registry.cases_of_isFinal final with ⟨name, rfl⟩ | ⟨definition, found, primitive⟩
  · have key : place.key = name := isOf.key
    have parsed := Reference.parse_text (Reference.proper_of_parse isOf.parsed)
    change Reference.parse name = .ok (.keyword name) at parsed
    rw [← key] at parsed isOf
    obtain ⟨category, owner⟩ := Context.exists_owner_keyword keywords parsed
    exact ⟨_, category, isOf, Or.inl rfl, owner⟩
  · rw [← isOf.key] at found
    obtain ⟨category, owner⟩ := owns _ definition found primitive
    exact ⟨reference, category, isOf, Or.inr ⟨definition, found, primitive⟩, owner⟩

end Derivation

namespace Context

variable {context : Context}

/-- Where every place has an owner, a variant offers something up to its end. -/
theorem offerAt?_eq_none {variant : Variant}
    (owned : ∀ place ∈ variant.places, ∃ category, context.owner? place.key = some category)
    (position : Nat) : context.offerAt? position variant = none ↔ variant.length ≤ position := by
  unfold offerAt? Variant.length
  rw [← List.getElem?_eq_none_iff]
  cases at' : variant.places[position]? with
  | none => simp
  | some place =>
    obtain ⟨category, owner⟩ := owned place (List.mem_of_getElem? at')
    simp [owner]

/-- A draft that fits a variant has a place for each of its fragments and a separator for each of its
boundaries. -/
theorem room_of_fits {variant : Variant} {draft : Draft}
    (separators : variant.separators.length + 1 = variant.length)
    (fits : context.fits draft variant = true) :
    draft.length ≤ variant.length ∧ draft.boundaries ≤ variant.separators.length := by
  have atMost := length_le_of_fits fits
  refine ⟨atMost, ?_⟩
  unfold Draft.boundaries
  omega

/-! ### Main result -/

/-- The variants of a structured expansion are well formed. Each has places, and one separator fewer. A
place holds its token with the key and the range of the reference that the token is; the key is that
of a keyword or of a primitive symbol, and some category owns it. So no fragment of a draft that fits
is without a place, and a variant offers nothing only from its end on. -/
theorem variants_owned {context : Context}
    (made : (∃ builder : Builder, builder.build = .ok context) ∨ context = standard)
    (keywords : Category.keyword ∈ context.categories) {grammar : String} {expansion : Expansion}
    (expanded : context.expand grammar = .ok expansion)
    (structured : expansion.isStructured = true) :
    ∀ variant ∈ expansion.variants,
      variant.places ≠ [] ∧ variant.separators.length + 1 = variant.length ∧
      (∀ place ∈ variant.places, ∃ reference category, place.IsOf reference ∧
        (reference = .keyword place.key ∨ ∃ definition,
          context.registry.find? place.key = some definition ∧ definition.isPrimitive = true) ∧
        context.owner? place.key = some category) ∧
      (∀ position, context.offerAt? position variant = none ↔ variant.length ≤ position) ∧
      ∀ draft, context.fits draft variant = true →
        draft.length ≤ variant.length ∧ draft.boundaries ≤ variant.separators.length := by
  have owns : context.OwnsPrimitives := by
    rcases made with ⟨builder, built⟩ | rfl
    · exact ownsPrimitives_of_build built
    · exact ownsPrimitives_standard
  obtain ⟨items, tree, derivation⟩ := exists_derivation expanded structured
  intro variant member
  have nonempty := derivation.places_ne_nil member
  have fewer := derivation.length_separators member
  have positive : 0 < variant.length := List.length_pos_iff.mpr nonempty
  have separators : variant.separators.length + 1 = variant.length := by omega
  refine ⟨nonempty, separators, fun place inside => derivation.exists_owner owns keywords member inside,
    offerAt?_eq_none fun place inside => ?_, fun draft fits => room_of_fits separators fits⟩
  obtain ⟨-, category, -, -, owner⟩ := derivation.exists_owner owns keywords member inside
  exact ⟨category, owner⟩

/-- A length, and a side that is a length or `auto`, with the standard categories. -/
def sides : Builder :=
  ⟨[⟨"<length>", "<length>", none⟩, ⟨"<side>", "<length> | auto", none⟩], Category.standard, .standard⟩

/-- The tokens of all three variants have owners. -/
theorem variants_owned_sides : ∃ context expansion, sides.build = .ok context ∧
    context.expand "auto [ / <side> ]?" = .ok expansion ∧ expansion.isStructured = true ∧
      expansion.variants.length = 3 ∧
      ∀ variant ∈ expansion.variants, variant.separators.length + 1 = variant.length ∧
        ∀ place ∈ variant.places, ∃ category, context.owner? place.key = some category := by
  have computed : sides.build.toOption.any (fun context =>
      (context.expand "auto [ / <side> ]?").toOption.any fun expansion =>
        expansion.isStructured && expansion.variants.length == 3) = true := by
    decide +kernel
  obtain ⟨context, built, expands⟩ := exists_ok_of_any computed
  obtain ⟨expansion, expanded, checked⟩ := exists_ok_of_any expands
  obtain ⟨structured, three⟩ := Bool.and_eq_true_iff.mp checked
  have keywords : Category.keyword ∈ context.categories := by
    rw [categories_of_build built]
    simp [sides, Category.standard]
  refine ⟨context, expansion, built, expanded, structured, eq_of_beq three, fun variant member => ?_⟩
  obtain ⟨-, separators, owned, -⟩ :=
    variants_owned (Or.inl ⟨_, built⟩) keywords expanded structured variant member
  refine ⟨separators, fun place inside => ?_⟩
  obtain ⟨-, category, -, -, owner⟩ := owned place inside
  exact ⟨category, owner⟩

end Context

end ValueGrammar
