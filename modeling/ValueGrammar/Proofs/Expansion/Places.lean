import ValueGrammar.Proofs.Expansion.Derivation

/-!
The places of a structured expansion. Each place is made from a token that substitution left, so it
has the key and the range of a settled reference; a variant has one separator fewer than places.
-/
namespace ValueGrammar

structure Place.IsOf (place : Place) (reference : Reference) : Prop where
  parsed : Reference.parse place.token = .ok reference
  key : place.key = reference.key
  range : place.range? = reference.range?

theorem Place.isOf_of_ofToken {token : String} {place : Place}
    (made : Place.ofToken token = .ok place) : ∃ reference, place.IsOf reference := by
  have same := Variant.token_of_ofToken made
  unfold Place.ofToken at made
  cases parsed : Reference.parse token with
  | error e =>
    rw [parsed] at made
    cases made
  | ok reference =>
    rw [parsed] at made
    cases made
    exact ⟨reference, parsed, rfl, rfl⟩

namespace Derivation

variable {context : Context} {grammar : String} {expansion : Expansion} {items : List Lexeme}
  {tree : Tree}

theorem length_separators (derivation : Derivation context grammar expansion items tree)
    {variant : Variant} (member : variant ∈ expansion.variants) :
    variant.separators.length = variant.length - 1 := by
  obtain ⟨piece, -, made⟩ := (Variant.mem_ofPieces derivation.variants).mp member
  obtain ⟨-, separators, tokens⟩ := Variant.ofPiece?_eq_some.mp made
  rw [separators, Piece.length_normalize, tokens.length_eq]
  rfl

theorem ofToken_of_mem (derivation : Derivation context grammar expansion items tree)
    {variant : Variant} (member : variant ∈ expansion.variants) :
    ∀ place ∈ variant.places, Place.ofToken place.token = .ok place := by
  intro place inside
  obtain ⟨piece, -, made⟩ := (Variant.mem_ofPieces derivation.variants).mp member
  obtain ⟨-, -, tokens⟩ := Variant.ofPiece?_eq_some.mp made
  obtain ⟨token, -, placed⟩ := exists_mem_of_forall₂ tokens.flip inside
  rw [Variant.token_of_ofToken placed]
  exact placed

/-- A place of a variant comes from a token among the items. -/
theorem exists_token (derivation : Derivation context grammar expansion items tree)
    {variant : Variant} (member : variant ∈ expansion.variants) {place : Place}
    (inside : place ∈ variant.places) :
    .token place.token ∈ items ∧ ∃ reference, place.IsOf reference := by
  obtain ⟨piece, found, made⟩ := (Variant.mem_ofPieces derivation.variants).mp member
  obtain ⟨-, -, tokens⟩ := Variant.ofPiece?_eq_some.mp made
  obtain ⟨token, written, placed⟩ := exists_mem_of_forall₂ tokens.flip inside
  have same := Variant.token_of_ofToken placed
  have reading := Tree.readings_of_mem_alternatives tree found
  have leaf := Tree.leaves_of_mem_readings reading (Piece.mem_normalize.mp written)
  have item := Tree.isLexeme_of_mem_leaves derivation.built _ leaf
  exact ⟨same ▸ item, Place.isOf_of_ofToken placed⟩

/-- Every place is that of a settled reference. -/
theorem exists_final (derivation : Derivation context grammar expansion items tree)
    {variant : Variant} (member : variant ∈ expansion.variants) {place : Place}
    (inside : place ∈ variant.places) :
    ∃ reference, place.IsOf reference ∧ context.registry.isFinal reference = true := by
  obtain ⟨item, reference, isOf⟩ := derivation.exists_token member inside
  obtain ⟨reference', parsed, -, final⟩ := derivation.settled place.token item
  have same : reference' = reference := by
    have both := parsed.symm.trans isOf.parsed
    cases both
    rfl
  exact ⟨reference, isOf, same ▸ final⟩

end Derivation

end ValueGrammar
