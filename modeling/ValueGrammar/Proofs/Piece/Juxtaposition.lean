import Mathlib.Data.Set.Basic
import ValueGrammar.Proofs.Piece.Gathering
import ValueGrammar.Proofs.Piece.Normalization

/-!
Pieces put in a row when some of those in the middle have been left out. Gathering leaves a piece
out when an earlier one has the same text; but the text does not show the separators at the two
ends, and in a row they stand between tokens.
-/
namespace ValueGrammar.Piece

/-- The tokens and separators of the pieces that have a token. -/
def shapes (pieces : List Piece) : Set (List String × List Separator) :=
  fun shape => shape.1 ≠ [] ∧ ∃ piece ∈ pieces, piece.normalize = shape

def inRow (fronts middles backs : List Piece) : List Piece :=
  fronts.flatMap fun front => middles.flatMap fun middle => backs.map (front ++ middle ++ ·)

/-- A piece is lost between two operands if it stands in a row of which no row through a piece
that has been kept has the tokens and separators. -/
def IsLost (fronts kept backs : List Piece) (middle : Piece) : Prop :=
  ∃ front ∈ fronts, ∃ back ∈ backs, (front ++ middle ++ back).normalize.1 ≠ [] ∧
    (front ++ middle ++ back).normalize ∉ shapes (inRow fronts kept backs)

/-- A piece hides another one that differs from it at its ends only. -/
def Hides (first second : Piece) : Prop :=
  first.normalize = second.normalize ∧
    (first.leading ≠ second.leading ∨ first.trailing ≠ second.trailing)

variable {fronts middles kept backs pieces pieces' : List Piece} {piece : Piece}

theorem mem_inRow : piece ∈ inRow fronts middles backs ↔
    ∃ front ∈ fronts, ∃ middle ∈ middles, ∃ back ∈ backs, piece = front ++ middle ++ back := by
  simp only [inRow, List.mem_flatMap, List.mem_map, eq_comm]

theorem mem_inRow_nil : piece ∈ inRow fronts middles [[]] ↔
    ∃ front ∈ fronts, ∃ middle ∈ middles, piece = front ++ middle := by
  simp only [mem_inRow, List.mem_singleton, exists_eq_left, List.append_nil]

theorem shapes_mono (subset : pieces ⊆ pieces') : shapes pieces ⊆ shapes pieces' := by
  intro shape member
  obtain ⟨nonempty, piece, inside, eq⟩ := member
  exact ⟨nonempty, piece, subset inside, eq⟩

theorem shapes_congr (same : ∀ piece, piece ∈ pieces ↔ piece ∈ pieces') :
    shapes pieces = shapes pieces' := by
  apply Set.Subset.antisymm
  · exact shapes_mono fun piece => (same piece).mp
  · exact shapes_mono fun piece => (same piece).mpr

theorem shapes_append (pieces pieces' : List Piece) :
    shapes (pieces ++ pieces') = shapes pieces ∪ shapes pieces' := by
  apply Set.Subset.antisymm
  · intro shape member
    obtain ⟨nonempty, piece, inside, eq⟩ := member
    exact (List.mem_append.mp inside).imp (fun here => ⟨nonempty, piece, here, eq⟩)
      fun there => ⟨nonempty, piece, there, eq⟩
  · exact Set.union_subset (shapes_mono (List.subset_append_left _ _))
      (shapes_mono (List.subset_append_right _ _))

theorem inRow_subset (subset : kept ⊆ middles) :
    inRow fronts kept backs ⊆ inRow fronts middles backs := by
  intro piece member
  obtain ⟨front, ofFronts, middle, ofKept, back, ofBacks, rfl⟩ := mem_inRow.mp member
  exact mem_inRow.mpr ⟨front, ofFronts, middle, subset ofKept, back, ofBacks, rfl⟩

/-- The pieces kept make up for all of them exactly if none is lost. -/
theorem shapes_inRow_eq_iff (subset : kept ⊆ middles) :
    shapes (inRow fronts kept backs) = shapes (inRow fronts middles backs) ↔
      ∀ middle ∈ middles, ¬ IsLost fronts kept backs middle := by
  constructor
  · intro same middle ofMiddles lost
    obtain ⟨front, ofFronts, back, ofBacks, nonempty, missing⟩ := lost
    apply missing
    rw [same]
    have inside := mem_inRow.mpr ⟨front, ofFronts, middle, ofMiddles, back, ofBacks, rfl⟩
    exact ⟨nonempty, _, inside, rfl⟩
  · intro none
    apply Set.Subset.antisymm (shapes_mono (inRow_subset subset))
    intro shape member
    obtain ⟨nonempty, piece, inside, eq⟩ := member
    obtain ⟨front, ofFronts, middle, ofMiddles, back, ofBacks, rfl⟩ := mem_inRow.mp inside
    subst eq
    by_contra missing
    exact none middle ofMiddles ⟨front, ofFronts, back, ofBacks, nonempty, missing⟩

/-- A piece is not lost where one is kept that reads alike. -/
theorem not_isLost_of_alike {middle middle' : Piece} (ofKept : middle' ∈ kept)
    (alike : Alike middle middle') : ¬ IsLost fronts kept backs middle := by
  intro lost
  obtain ⟨front, ofFronts, back, ofBacks, nonempty, missing⟩ := lost
  apply missing
  have inside := mem_inRow.mpr ⟨front, ofFronts, middle', ofKept, back, ofBacks, rfl⟩
  exact ⟨nonempty, _, inside, (alike.within front back).symm⟩

/-- What remains of pieces when each has been kept or stands behind a kept one with its text. -/
structure Represents (kept pieces : List Piece) : Prop where
  subset : kept ⊆ pieces
  texts : ∀ piece ∈ pieces, ∃ first ∈ kept, first.text = piece.text

theorem Represents.exists_normalize (represents : Represents kept pieces)
    (written : ∀ piece ∈ pieces, ∀ text, .token text ∈ piece → Written text)
    (member : piece ∈ pieces) : ∃ first ∈ kept, first.normalize = piece.normalize := by
  obtain ⟨first, ofKept, same⟩ := represents.texts piece member
  refine ⟨first, ofKept, ?_⟩
  exact normalize_eq_of_text (written first (represents.subset ofKept)) (written piece member) same

/-- Leaving pieces out for their texts leaves out no tokens and separators. -/
theorem Represents.shapes_eq (represents : Represents kept pieces)
    (written : ∀ piece ∈ pieces, ∀ text, .token text ∈ piece → Written text) :
    shapes kept = shapes pieces := by
  apply Set.Subset.antisymm (shapes_mono represents.subset)
  intro shape member
  obtain ⟨nonempty, piece, inside, eq⟩ := member
  obtain ⟨first, ofKept, same⟩ := represents.exists_normalize written inside
  exact ⟨nonempty, first, ofKept, same.trans eq⟩

/-- A piece that is lost is hidden by one that has been kept. -/
theorem IsLost.exists_hiding (represents : Represents kept middles)
    (written : ∀ piece ∈ middles, ∀ text, .token text ∈ piece → Written text) {middle : Piece}
    (lost : IsLost fronts kept backs middle) (member : middle ∈ middles) :
    ∃ first ∈ kept, Hides first middle := by
  obtain ⟨first, ofKept, inside⟩ := represents.exists_normalize written member
  refine ⟨first, ofKept, inside, ?_⟩
  by_contra equal
  rw [not_or, not_not, not_not] at equal
  exact not_isLost_of_alike ofKept ⟨inside.symm, equal.1.symm, equal.2.symm⟩ lost

/-- No piece is lost among tight ones. -/
theorem not_isLost_of_tight (represents : Represents kept middles)
    (written : ∀ piece ∈ middles, ∀ text, .token text ∈ piece → Written text)
    (tight : ∀ piece ∈ middles, Tight piece) {middle : Piece} (member : middle ∈ middles) :
    ¬ IsLost fronts kept backs middle := by
  obtain ⟨first, ofKept, same⟩ := represents.exists_normalize written member
  have eq := (tight first (represents.subset ofKept)).eq (tight middle member) same
  exact not_isLost_of_alike (eq ▸ ofKept) (.refl middle)

end ValueGrammar.Piece
