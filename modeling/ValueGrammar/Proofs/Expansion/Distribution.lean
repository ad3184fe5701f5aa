import ValueGrammar.Proofs.Expansion.Composition
import ValueGrammar.Proofs.Expansion.Places

/-!
Juxtaposition and choice. A grammar in front of a choice should have the variants of a choice of
rows, and so should one around an optional part. It has unless the choice, or the optional part,
loses a piece: gathering takes pieces with one text for the same, though a slash at their ends is
not part of the text.
-/
namespace ValueGrammar

def Expansion.shapes (expansion : Expansion) : Set (List String × List Separator) :=
  fun shape => ∃ variant ∈ expansion.variants, variant.shape = shape

/-- A grammar is expanded as a whole: it is taken apart, and no variant is left out. -/
structure Context.Expands (context : Context) (grammar : String) (expansion : Expansion) : Prop where
  expanded : context.expand grammar = .ok expansion
  structured : expansion.isStructured = true
  whole : expansion.truncated = false

def Context.pieces (context : Context) (tree : Tree) : List Piece :=
  (tree.alternatives context.limits).pieces

variable {context : Context}

/-! ### Shapes of expansions -/

namespace Derivation

variable {grammar : String} {expansion : Expansion} {items : List Lexeme} {tree : Tree}
  {trees : List Tree}

theorem shapes_eq (derivation : Derivation context grammar expansion items tree) :
    expansion.shapes = Piece.shapes (context.pieces tree) := by
  apply Set.Subset.antisymm
  · intro shape member
    obtain ⟨variant, inside, rfl⟩ := member
    obtain ⟨piece, ofTree, made⟩ := (Variant.mem_ofPieces derivation.variants).mp inside
    rw [Variant.shape_of_ofPiece? made]
    exact ⟨(Variant.ofPiece?_eq_some.mp made).1, piece, ofTree, rfl⟩
  · intro shape member
    obtain ⟨nonempty, piece, inside, rfl⟩ := member
    exact Variant.exists_of_mem derivation.variants inside nonempty

/-- The tokens in the pieces of a tree inside are written as they are read. -/
theorem written (derivation : Derivation context grammar expansion items tree) {inner : Tree}
    (within : inner.leaves ⊆ tree.leaves) {piece : Piece} (member : piece ∈ context.pieces inner)
    {text : String} (inside : .token text ∈ piece) : Written text := by
  have reading := Tree.readings_of_mem_alternatives inner member
  have leaf := within (Tree.leaves_of_mem_readings reading inside)
  exact (derivation.settled text (Tree.isLexeme_of_mem_leaves derivation.built _ leaf)).written

/-- Variants with a shape that an expansion has are in it. -/
theorem mem_variants_iff (derivation : Derivation context grammar expansion items tree)
    {variant : Variant} (read : ∀ place ∈ variant.places, Place.ofToken place.token = .ok place) :
    variant ∈ expansion.variants ↔ variant.shape ∈ expansion.shapes := by
  constructor
  · exact fun member => ⟨variant, member, rfl⟩
  · intro given
    obtain ⟨other, member, same⟩ := given
    rw [← Variant.eq_of_shape (derivation.ofToken_of_mem member) read same]
    exact member

/-- Gathering the alternatives of a choice leaves out no tokens and separators. -/
theorem shapes_choice
    (derivation : Derivation context grammar expansion items (.group .choice trees))
    (whole : expansion.truncated = false) :
    expansion.shapes = Piece.shapes (trees.flatMap context.pieces) := by
  have uncut := derivation.truncated.symm.trans whole
  rw [derivation.shapes_eq]
  apply (Tree.represents_choice uncut).shapes_eq
  intro piece member text inside
  obtain ⟨tree, ofTrees, ofTree⟩ := List.mem_flatMap.mp member
  have within : tree.leaves ⊆ (Tree.group .choice trees).leaves := fun atom leaf =>
    Tree.mem_childLeaves.mpr ⟨tree, ofTrees, leaf⟩
  exact derivation.written within ofTree inside

end Derivation

/-! ### The four grammars -/

namespace Distribution

/-- `[ x ] [ [ y ] | [ z ] ]` -/
def rowOfChoice (x y z : String) : String :=
  bracketed x ++ " " ++ bracketed (bracketed y ++ " | " ++ bracketed z)

/-- `[ [ x ] [ y ] ] | [ [ x ] [ z ] ]` -/
def choiceOfRows (x y z : String) : String :=
  bracketed (bracketed x ++ " " ++ bracketed y) ++ " | " ++
    bracketed (bracketed x ++ " " ++ bracketed z)

/-- `[ x ] [ y ]? [ z ]` -/
def rowWithOption (x y z : String) : String :=
  bracketed x ++ " " ++ (bracketed y ++ "?") ++ " " ++ bracketed z

/-- `[ [ x ] [ z ] ] | [ [ x ] [ y ] [ z ] ]` -/
def choiceOfPresence (x y z : String) : String :=
  bracketed (bracketed x ++ " " ++ bracketed z) ++ " | " ++
    bracketed (bracketed x ++ " " ++ bracketed y ++ " " ++ bracketed z)

variable {x y z : String} {X Y Z : Tree} {expansion : Expansion}

theorem shapes_rowOfChoice (acceptsX : context.Accepts x X) (acceptsY : context.Accepts y Y)
    (acceptsZ : context.Accepts z Z) (expands : context.Expands (rowOfChoice x y z) expansion) :
    expansion.shapes = Piece.shapes (Piece.inRow (context.pieces X)
        (context.pieces (.group .choice [Y, Z])) [[]]) ∧
      Piece.Represents (context.pieces (.group .choice [Y, Z]))
        (context.pieces Y ++ context.pieces Z) ∧
      ∀ piece ∈ context.pieces Y ++ context.pieces Z, ∀ text, .token text ∈ piece →
        Written text := by
  have choice := acceptsY.denotes.either acceptsZ.denotes
  have denotes := (acceptsX.denotes.bracketed.beside choice.bracketed).denotes
  obtain ⟨items, derivation⟩ := denotes.exists_derivation expands.expanded expands.structured
  simp only [List.singleton_append, Tree.ofSequence_cons_cons] at derivation
  have uncut := derivation.truncated.symm.trans expands.whole
  have uncutChoice := (Tree.uncut_of_group uncut).1 (.group .choice [Y, Z]) (by simp)
  have represents := Tree.represents_choice uncutChoice
  simp only [List.flatMap_cons, List.flatMap_nil, List.append_nil] at represents
  refine ⟨?_, represents, ?_⟩
  · rw [derivation.shapes_eq]
    exact Piece.shapes_congr fun piece => Tree.mem_pair uncut
  · intro piece member text inside
    rcases List.mem_append.mp member with ofY | ofZ
    · exact derivation.written (by simp [Tree.leaves, Tree.childLeaves]) ofY inside
    · exact derivation.written (by simp [Tree.leaves, Tree.childLeaves]) ofZ inside

theorem shapes_choiceOfRows (acceptsX : context.Accepts x X) (acceptsY : context.Accepts y Y)
    (acceptsZ : context.Accepts z Z) (expands : context.Expands (choiceOfRows x y z) expansion) :
    expansion.shapes = Piece.shapes (Piece.inRow (context.pieces X)
      (context.pieces Y ++ context.pieces Z) [[]]) := by
  have denotesXY := (acceptsX.denotes.bracketed.beside acceptsY.denotes.bracketed).denotes
  have denotesXZ := (acceptsX.denotes.bracketed.beside acceptsZ.denotes.bracketed).denotes
  obtain ⟨items, derivation⟩ :=
    (denotesXY.either denotesXZ).exists_derivation expands.expanded expands.structured
  simp only [List.singleton_append, Tree.ofSequence_cons_cons] at derivation
  have uncut := derivation.truncated.symm.trans expands.whole
  have uncutXY := (Tree.uncut_of_group uncut).1 (.group .sequence [X, Y]) (by simp)
  have uncutXZ := (Tree.uncut_of_group uncut).1 (.group .sequence [X, Z]) (by simp)
  rw [derivation.shapes_choice expands.whole]
  apply Piece.shapes_congr
  intro piece
  simp only [List.flatMap_cons, List.flatMap_nil, List.append_nil, List.mem_append, Context.pieces,
    Tree.mem_pair uncutXY, Tree.mem_pair uncutXZ, Piece.mem_inRow_nil]
  constructor
  · intro either
    rcases either with ⟨front, ofX, back, ofY, eq⟩ | ⟨front, ofX, back, ofZ, eq⟩
    · exact ⟨front, ofX, back, Or.inl ofY, eq⟩
    · exact ⟨front, ofX, back, Or.inr ofZ, eq⟩
  · intro ⟨front, ofX, back, either, eq⟩
    rcases either with ofY | ofZ
    · exact Or.inl ⟨front, ofX, back, ofY, eq⟩
    · exact Or.inr ⟨front, ofX, back, ofZ, eq⟩

theorem shapes_rowWithOption (acceptsX : context.Accepts x X) (acceptsY : context.Accepts y Y)
    (acceptsZ : context.Accepts z Z) (expands : context.Expands (rowWithOption x y z) expansion) :
    expansion.shapes = Piece.shapes (Piece.inRow (context.pieces X)
        (context.pieces (.repeated Y .optional)) (context.pieces Z)) ∧
      (1 ≤ context.limits.repetitions →
        Piece.Represents (context.pieces (.repeated Y .optional)) ([] :: context.pieces Y)) ∧
      ∀ piece ∈ [] :: context.pieces Y, ∀ text, .token text ∈ piece → Written text := by
  have front := acceptsX.denotes.bracketed.beside acceptsY.denotes.optional
  have denotes := (front.beside acceptsZ.denotes.bracketed).denotes
  obtain ⟨items, derivation⟩ := denotes.exists_derivation expands.expanded expands.structured
  simp only [List.cons_append, List.nil_append, Tree.ofSequence_cons_cons] at derivation
  have uncut := derivation.truncated.symm.trans expands.whole
  have uncutOption := (Tree.uncut_of_group uncut).1 (.repeated Y .optional) (by simp)
  refine ⟨?_, fun room => Tree.represents_optional room uncutOption, ?_⟩
  · rw [derivation.shapes_eq]
    exact Piece.shapes_congr fun piece => Tree.mem_triple uncut
  · intro piece member text inside
    rcases List.mem_cons.mp member with none | ofY
    · subst none
      cases inside
    · exact derivation.written (by simp [Tree.leaves, Tree.childLeaves]) ofY inside

theorem shapes_choiceOfPresence (acceptsX : context.Accepts x X) (acceptsY : context.Accepts y Y)
    (acceptsZ : context.Accepts z Z)
    (expands : context.Expands (choiceOfPresence x y z) expansion) :
    expansion.shapes = Piece.shapes (Piece.inRow (context.pieces X) ([] :: context.pieces Y)
      (context.pieces Z)) := by
  have denotesXZ := (acceptsX.denotes.bracketed.beside acceptsZ.denotes.bracketed).denotes
  have front := acceptsX.denotes.bracketed.beside acceptsY.denotes.bracketed
  have denotesXYZ := (front.beside acceptsZ.denotes.bracketed).denotes
  obtain ⟨items, derivation⟩ :=
    (denotesXZ.either denotesXYZ).exists_derivation expands.expanded expands.structured
  simp only [List.cons_append, List.nil_append, Tree.ofSequence_cons_cons] at derivation
  have uncut := derivation.truncated.symm.trans expands.whole
  have uncutXZ := (Tree.uncut_of_group uncut).1 (.group .sequence [X, Z]) (by simp)
  have uncutXYZ := (Tree.uncut_of_group uncut).1 (.group .sequence [X, Y, Z]) (by simp)
  rw [derivation.shapes_choice expands.whole]
  apply Piece.shapes_congr
  intro piece
  simp only [List.flatMap_cons, List.flatMap_nil, List.append_nil, List.mem_append, Context.pieces,
    Tree.mem_pair uncutXZ, Tree.mem_triple uncutXYZ, Piece.mem_inRow_nil]
  rw [Piece.mem_inRow, Piece.mem_inRow]
  constructor
  · intro either
    rcases either with ⟨front, ofX, back, ofZ, eq⟩ | ⟨front, ofX, middle, ofY, back, ofZ, eq⟩
    · exact ⟨front, ofX, [], List.mem_cons_self, back, ofZ, by simpa using eq⟩
    · exact ⟨front, ofX, middle, List.mem_cons_of_mem _ ofY, back, ofZ, eq⟩
  · intro ⟨front, ofX, middle, ofOption, back, ofZ, eq⟩
    rcases List.mem_cons.mp ofOption with none | ofY
    · subst none
      exact Or.inl ⟨front, ofX, back, ofZ, by simpa using eq⟩
    · exact Or.inr ⟨front, ofX, middle, ofY, back, ofZ, eq⟩

/-! ### Main results -/

/-- A row through a choice has the shapes of a choice of rows exactly if the choice loses none of
its alternatives, and a row around an optional part those of a choice between its absence and its
presence exactly if the option loses neither. What is lost is hidden by another alternative, which
differs from it only in the separators at its ends; or no repetition is allowed at all. -/
theorem juxtaposition_distributes_iff (acceptsX : context.Accepts x X)
    (acceptsY : context.Accepts y Y) (acceptsZ : context.Accepts z Z) :
    (∀ row choice, context.Expands (rowOfChoice x y z) row →
      context.Expands (choiceOfRows x y z) choice →
        (row.shapes = choice.shapes ↔ ∀ middle ∈ context.pieces Y ++ context.pieces Z,
          ¬ Piece.IsLost (context.pieces X) (context.pieces (.group .choice [Y, Z])) [[]] middle) ∧
        ∀ middle ∈ context.pieces Y ++ context.pieces Z,
          Piece.IsLost (context.pieces X) (context.pieces (.group .choice [Y, Z])) [[]] middle →
            ∃ first ∈ context.pieces (.group .choice [Y, Z]), first.Hides middle) ∧
    ∀ row choice, context.Expands (rowWithOption x y z) row →
      context.Expands (choiceOfPresence x y z) choice →
        (row.shapes = choice.shapes ↔ ∀ middle ∈ [] :: context.pieces Y,
          ¬ Piece.IsLost (context.pieces X) (context.pieces (.repeated Y .optional))
            (context.pieces Z) middle) ∧
        (1 ≤ context.limits.repetitions → ∀ middle ∈ [] :: context.pieces Y,
          Piece.IsLost (context.pieces X) (context.pieces (.repeated Y .optional))
            (context.pieces Z) middle →
              ∃ first ∈ context.pieces (.repeated Y .optional), first.Hides middle) := by
  constructor
  · intro row choice ofRow ofChoice
    obtain ⟨shapesRow, represents, written⟩ := shapes_rowOfChoice acceptsX acceptsY acceptsZ ofRow
    have shapesChoice := shapes_choiceOfRows acceptsX acceptsY acceptsZ ofChoice
    constructor
    · rw [shapesRow, shapesChoice]
      exact Piece.shapes_inRow_eq_iff represents.subset
    · intro middle member lost
      exact lost.exists_hiding represents written member
  · intro row choice ofRow ofChoice
    obtain ⟨shapesRow, represents, written⟩ :=
      shapes_rowWithOption acceptsX acceptsY acceptsZ ofRow
    have shapesChoice := shapes_choiceOfPresence acceptsX acceptsY acceptsZ ofChoice
    constructor
    · rw [shapesRow, shapesChoice]
      exact Piece.shapes_inRow_eq_iff Tree.optional_subset
    · intro room middle member lost
      exact lost.exists_hiding (represents room) written member

/-! ### A slash that is lost -/

def isAccepted (context : Context) (grammar : String) : Bool :=
  (context.registry.substitute grammar).toOption.any fun substitution =>
    (Tree.ofLexemes substitution.items).toOption.any fun _ => true

/-- Whether a grammar is expanded as a whole, with an expansion that passes a test. -/
def expandsTo (context : Context) (test : Expansion → Bool) (grammar : String) : Bool :=
  (context.expand grammar).toOption.any fun expansion =>
    expansion.isStructured && !expansion.truncated && test expansion

def hasSlash (expansion : Expansion) : Bool :=
  expansion.variants.any fun variant => variant.separators.contains .slash

theorem exists_accepts {grammar : String} (passed : isAccepted context grammar = true) :
    ∃ tree, context.Accepts grammar tree := by
  obtain ⟨substitution, substituted, inner⟩ := exists_ok_of_any passed
  obtain ⟨tree, built, -⟩ := exists_ok_of_any inner
  exact ⟨tree, substitution, substituted, built⟩

theorem exists_expands {grammar : String} {test : Expansion → Bool}
    (passed : expandsTo context test grammar = true) :
    ∃ expansion, context.Expands grammar expansion ∧ test expansion = true := by
  obtain ⟨expansion, expanded, tested⟩ := exists_ok_of_any passed
  simp only [Bool.and_eq_true, Bool.not_eq_true'] at tested
  exact ⟨expansion, ⟨expanded, tested.1.1, tested.1.2⟩, tested.2⟩

theorem exists_expansion {grammar : String}
    (passed : expandsTo context (fun _ => true) grammar = true) :
    ∃ expansion, context.Expands grammar expansion := by
  obtain ⟨expansion, expands, -⟩ := exists_expands passed
  exact ⟨expansion, expands⟩

theorem shapes_ne {row choice : Expansion} (without : (!hasSlash row) = true)
    (slashed : hasSlash choice = true) : row.shapes ≠ choice.shapes := by
  intro same
  obtain ⟨variant, member, slash⟩ := List.any_eq_true.mp slashed
  have inside : variant.shape ∈ row.shapes := same ▸ ⟨variant, member, rfl⟩
  obtain ⟨other, ofRow, eq⟩ := inside
  rw [Bool.not_eq_true', hasSlash, List.any_eq_false] at without
  apply without other ofRow
  rw [show other.separators = variant.separators from congrArg Prod.snd eq]
  exact slash

/-- Three grammars, and two grammars composed of them of which only the second has variants with a
slash. -/
theorem exists_losing_slash {x y z row choice : String} (acceptedX : isAccepted context x = true)
    (acceptedY : isAccepted context y = true) (acceptedZ : isAccepted context z = true)
    (without : expandsTo context (fun expansion => !hasSlash expansion) row = true)
    (slashed : expandsTo context hasSlash choice = true) :
    ∃ X Y Z lesser greater, context.Accepts x X ∧ context.Accepts y Y ∧ context.Accepts z Z ∧
      context.Expands row lesser ∧ context.Expands choice greater ∧
        lesser.shapes ≠ greater.shapes := by
  obtain ⟨X, acceptsX⟩ := exists_accepts acceptedX
  obtain ⟨Y, acceptsY⟩ := exists_accepts acceptedY
  obtain ⟨Z, acceptsZ⟩ := exists_accepts acceptedZ
  obtain ⟨lesser, ofRow, noSlash⟩ := exists_expands without
  obtain ⟨greater, ofChoice, slash⟩ := exists_expands slashed
  exact ⟨X, Y, Z, lesser, greater, acceptsX, acceptsY, acceptsZ, ofRow, ofChoice,
    shapes_ne noSlash slash⟩

/-- In `[ b ] [ [ a ] | [ / a ] ]` the alternative with the slash has the text of the other one. -/
theorem exists_choice_losing_slash : ∃ X Y Z row choice, Context.standard.Accepts "b" X ∧
    Context.standard.Accepts "a" Y ∧ Context.standard.Accepts "/ a" Z ∧
      Context.standard.Expands (rowOfChoice "b" "a" "/ a") row ∧
      Context.standard.Expands (choiceOfRows "b" "a" "/ a") choice ∧
        row.shapes ≠ choice.shapes := by
  apply exists_losing_slash <;> decide +kernel

/-- In `[ b ] [ / ]? [ a ]` the slash has the text of its absence, which is none. -/
theorem exists_option_losing_slash : ∃ X Y Z row choice, Context.standard.Accepts "b" X ∧
    Context.standard.Accepts "/" Y ∧ Context.standard.Accepts "a" Z ∧
      Context.standard.Expands (rowWithOption "b" "/" "a") row ∧
      Context.standard.Expands (choiceOfPresence "b" "/" "a") choice ∧
        row.shapes ≠ choice.shapes := by
  apply exists_losing_slash <;> decide +kernel

/-- A choice and an option that lose a piece: there the rows have other shapes than the choices. -/
theorem juxtaposition_distributes_iff_slash :
    (∃ X Y Z row choice, Context.standard.Accepts "b" X ∧ Context.standard.Accepts "a" Y ∧
      Context.standard.Accepts "/ a" Z ∧
        Context.standard.Expands (rowOfChoice "b" "a" "/ a") row ∧
        Context.standard.Expands (choiceOfRows "b" "a" "/ a") choice ∧ row.shapes ≠ choice.shapes ∧
          ∃ lost ∈ Context.standard.pieces Y ++ Context.standard.pieces Z,
            ∃ first ∈ Context.standard.pieces (.group .choice [Y, Z]), first.Hides lost) ∧
    ∃ X Y Z row choice, Context.standard.Accepts "b" X ∧ Context.standard.Accepts "/" Y ∧
      Context.standard.Accepts "a" Z ∧
        Context.standard.Expands (rowWithOption "b" "/" "a") row ∧
        Context.standard.Expands (choiceOfPresence "b" "/" "a") choice ∧
          row.shapes ≠ choice.shapes ∧ ∃ lost ∈ [] :: Context.standard.pieces Y,
            ∃ first ∈ Context.standard.pieces (.repeated Y .optional), first.Hides lost := by
  constructor
  · obtain ⟨X, Y, Z, row, choice, acceptsX, acceptsY, acceptsZ, ofRow, ofChoice, different⟩ :=
      exists_choice_losing_slash
    obtain ⟨same, hidden⟩ :=
      (juxtaposition_distributes_iff acceptsX acceptsY acceptsZ).1 row choice ofRow ofChoice
    have losing := mt same.mpr different
    push Not at losing
    obtain ⟨lost, member, isLost⟩ := losing
    exact ⟨X, Y, Z, row, choice, acceptsX, acceptsY, acceptsZ, ofRow, ofChoice, different, lost,
      member, hidden lost member isLost⟩
  · obtain ⟨X, Y, Z, row, choice, acceptsX, acceptsY, acceptsZ, ofRow, ofChoice, different⟩ :=
      exists_option_losing_slash
    obtain ⟨same, hidden⟩ :=
      (juxtaposition_distributes_iff acceptsX acceptsY acceptsZ).2 row choice ofRow ofChoice
    have losing := mt same.mpr different
    push Not at losing
    obtain ⟨lost, member, isLost⟩ := losing
    exact ⟨X, Y, Z, row, choice, acceptsX, acceptsY, acceptsZ, ofRow, ofChoice, different, lost,
      member, hidden (by decide) lost member isLost⟩

/-- Juxtaposition distributes neither over every choice nor over every option. -/
theorem juxtaposition_does_not_distribute :
    (¬ ∀ (context : Context) (x y z : String) (X Y Z : Tree) (row choice : Expansion),
      context.Accepts x X → context.Accepts y Y → context.Accepts z Z →
        context.Expands (rowOfChoice x y z) row → context.Expands (choiceOfRows x y z) choice →
          row.shapes = choice.shapes) ∧
    ¬ ∀ (context : Context) (x y z : String) (X Y Z : Tree) (row choice : Expansion),
      context.Accepts x X → context.Accepts y Y → context.Accepts z Z →
        context.Expands (rowWithOption x y z) row →
          context.Expands (choiceOfPresence x y z) choice → row.shapes = choice.shapes := by
  constructor
  · intro distributes
    obtain ⟨X, Y, Z, row, choice, acceptsX, acceptsY, acceptsZ, ofRow, ofChoice, different⟩ :=
      exists_choice_losing_slash
    exact different (distributes _ _ _ _ X Y Z row choice acceptsX acceptsY acceptsZ ofRow ofChoice)
  · intro distributes
    obtain ⟨X, Y, Z, row, choice, acceptsX, acceptsY, acceptsZ, ofRow, ofChoice, different⟩ :=
      exists_option_losing_slash
    exact different (distributes _ _ _ _ X Y Z row choice acceptsX acceptsY acceptsZ ofRow ofChoice)

/-! ### Grammars without slashes -/

/-- The pieces of a grammar without slashes are tight. -/
theorem tight_of_accepts (accepts : context.Accepts y Y) (noSlash : .separator .slash ∉ Y.leaves) :
    ∀ piece ∈ context.pieces Y, Piece.Tight piece := by
  intro piece member
  obtain ⟨substitution, -, built⟩ := accepts
  have unseparated : ∀ s, .separator s ∉ Y.leaves := by
    intro s leaf
    obtain ⟨slash, -⟩ := Tree.isLexeme_of_mem_leaves built _ leaf
    rw [slash] at leaf
    exact noSlash leaf
  exact Tree.tight_of_mem_readings unseparated (Tree.readings_of_mem_alternatives Y member)

/-- Juxtaposition distributes over a choice and over an option that are written without slashes;
around them slashes do no harm. -/
theorem juxtaposition_distributes_of_no_slash (acceptsX : context.Accepts x X)
    (acceptsY : context.Accepts y Y) (acceptsZ : context.Accepts z Z)
    (noSlashY : .separator .slash ∉ Y.leaves) :
    (.separator .slash ∉ Z.leaves → ∀ row choice, context.Expands (rowOfChoice x y z) row →
      context.Expands (choiceOfRows x y z) choice → row.shapes = choice.shapes) ∧
    (1 ≤ context.limits.repetitions → ∀ row choice, context.Expands (rowWithOption x y z) row →
      context.Expands (choiceOfPresence x y z) choice → row.shapes = choice.shapes) := by
  have tightY := tight_of_accepts acceptsY noSlashY
  constructor
  · intro noSlashZ row choice ofRow ofChoice
    obtain ⟨shapesRow, represents, written⟩ := shapes_rowOfChoice acceptsX acceptsY acceptsZ ofRow
    have tight : ∀ piece ∈ context.pieces Y ++ context.pieces Z, Piece.Tight piece := by
      intro piece member
      rcases List.mem_append.mp member with ofY | ofZ
      · exact tightY piece ofY
      · exact tight_of_accepts acceptsZ noSlashZ piece ofZ
    rw [shapesRow, shapes_choiceOfRows acceptsX acceptsY acceptsZ ofChoice]
    apply (Piece.shapes_inRow_eq_iff represents.subset).mpr
    intro middle member
    exact Piece.not_isLost_of_tight represents written tight member
  · intro room row choice ofRow ofChoice
    obtain ⟨shapesRow, represents, written⟩ :=
      shapes_rowWithOption acceptsX acceptsY acceptsZ ofRow
    have tight : ∀ piece ∈ [] :: context.pieces Y, Piece.Tight piece := by
      intro piece member
      rcases List.mem_cons.mp member with none | ofY
      · rw [none]
        exact Piece.tight_nil
      · exact tightY piece ofY
    rw [shapesRow, shapes_choiceOfPresence acceptsX acceptsY acceptsZ ofChoice]
    apply (Piece.shapes_inRow_eq_iff Tree.optional_subset).mpr
    intro middle member
    exact Piece.not_isLost_of_tight (represents room) written tight member

end Distribution

end ValueGrammar
