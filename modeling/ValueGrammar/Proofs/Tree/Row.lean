import ValueGrammar.Proofs.Lexeme.Written
import ValueGrammar.Proofs.Piece.Gathering
import ValueGrammar.Proofs.Piece.Normalization
import ValueGrammar.Proofs.Piece.Product
import ValueGrammar.Proofs.Tree.Building
import ValueGrammar.Tree.Alternatives

/-!
Rows of tokens with commas and slashes between them. The tree of such a row stands for a single
piece, the row itself.
-/
namespace ValueGrammar

/-! ### Flat runs -/

namespace Lexeme

def atom : Lexeme → Atom
  | token text => .token text
  | comma => .separator .comma
  | _ => .separator .slash

def isFlat : Lexeme → Bool
  | token _ => true
  | comma => true
  | slash => true
  | _ => false

/-- The atoms of a row are those of the piece that it spells. -/
theorem map_atom_row (texts : List String) (separators : List Separator) :
    (row texts separators).map atom = Piece.spell texts separators := by
  induction texts generalizing separators with
  | nil => rfl
  | cons text texts ih =>
    cases texts with
    | nil => rfl
    | cons next texts =>
      have atoms (s : Separator) : s.lexemes.map atom = Piece.atoms s := by cases s <;> rfl
      simp only [row, Piece.spell, List.map_cons, List.map_append, atoms, ih]
      rfl

theorem isFlat_row (texts : List String) (separators : List Separator) :
    ∀ x ∈ row texts separators, x.isFlat = true := by
  induction texts generalizing separators with
  | nil =>
    intro x member
    cases member
  | cons text texts ih =>
    cases texts with
    | nil =>
      intro x member
      rw [List.mem_singleton.mp member]
      rfl
    | cons next texts =>
      have between (s : Separator) : ∀ x ∈ s.lexemes, x.isFlat = true := by cases s <;> decide
      intro x member
      rcases List.mem_cons.mp member with rfl | behind
      · rfl
      · rcases List.mem_append.mp behind with separator | later
        · exact between _ x separator
        · exact ih _ x later

theorem mem_of_token_mem_row {texts : List String} {separators : List Separator} {text : String}
    (member : token text ∈ row texts separators) : text ∈ texts := by
  induction texts generalizing separators with
  | nil => cases member
  | cons first texts ih =>
    cases texts with
    | nil =>
      cases List.mem_singleton.mp member
      exact List.mem_cons_self
    | cons next texts =>
      have between (s : Separator) : token text ∉ s.lexemes := by
        cases s <;> simp [Separator.lexemes]
      rcases List.mem_cons.mp member with same | behind
      · cases same
        exact List.mem_cons_self
      · rcases List.mem_append.mp behind with separator | later
        · exact absurd separator (between _)
        · exact List.mem_cons_of_mem _ (ih later)

end Lexeme

namespace Tree

theorem depthAfter_of_isFlat {x : Lexeme} (flat : x.isFlat = true) (depth : Nat) :
    depthAfter depth x = depth := by
  cases x with
  | opening => cases flat
  | closing => cases flat
  | _ => rfl

theorem isBalanced_of_isFlat {items : List Lexeme} (flat : ∀ x ∈ items, x.isFlat = true) :
    isBalanced 0 items = true := by
  induction items with
  | nil => rfl
  | cons x rest ih =>
    have here := flat x List.mem_cons_self
    rw [isBalanced_cons, depthAfter_of_isFlat here]
    refine ⟨?_, ih fun y member => flat y (List.mem_cons_of_mem _ member)⟩
    intro given
    subst given
    cases here

theorem not_mem_of_mem_operands {delimiter : Lexeme} {items : List Lexeme}
    (flat : ∀ x ∈ items, x.isFlat = true) :
    ∀ run ∈ operands delimiter 0 items, delimiter ∉ run := by
  induction items with
  | nil =>
    intro run member
    rw [List.mem_singleton.mp member]
    exact List.not_mem_nil
  | cons x rest ih =>
    have later := ih fun y member => flat y (List.mem_cons_of_mem _ member)
    by_cases same : x = delimiter
    · subst same
      rw [operands_delimiter]
      intro run member
      rcases List.mem_cons.mp member with rfl | others
      · exact List.not_mem_nil
      · exact later run others
    · rw [operands_cons same, depthAfter_of_isFlat (flat x List.mem_cons_self)]
      cases runs : operands delimiter 0 rest with
      | nil => exact absurd runs (operands_ne_nil _ _ _)
      | cons first others =>
        rw [runs] at later
        intro run member
        rcases List.mem_cons.mp member with rfl | inside
        · intro within
          rcases List.mem_cons.mp within with eq | behind
          · exact same eq.symm
          · exact later first List.mem_cons_self behind
        · exact later run (List.mem_cons_of_mem _ inside)

/-- No operand of a row is empty, since every comma stands between two tokens. -/
theorem nil_not_mem_operands_row {texts : List String} (nonempty : texts ≠ [])
    (separators : List Separator) :
    [] ∉ operands .comma 0 (Lexeme.row texts separators) := by
  induction texts generalizing separators with
  | nil => exact absurd rfl nonempty
  | cons text texts ih =>
    cases texts with
    | nil => simp [Lexeme.row, operands, consFirst]
    | cons next texts =>
      have later := ih (by simp) separators.tail
      have slash (rest : List Lexeme) : operands .comma 0 (.slash :: rest) =
          consFirst .slash (operands .comma 0 rest) := operands_cons (by decide) 0 rest
      change [] ∉ operands .comma 0 (.token text ::
        ((separators.headD .space).lexemes ++ Lexeme.row (next :: texts) separators.tail))
      rw [operands_cons (by simp)]
      change [] ∉ consFirst _ (operands .comma 0 _)
      cases runs : operands .comma 0 (Lexeme.row (next :: texts) separators.tail) with
      | nil => exact absurd runs (operands_ne_nil _ _ _)
      | cons first others =>
        rw [runs] at later
        have behind : [] ∉ others := fun member => later (List.mem_cons_of_mem _ member)
        cases separators.headD .space with
        | space =>
          rw [Separator.lexemes, List.nil_append, runs]
          simp [consFirst, behind]
        | comma =>
          rw [Separator.lexemes, List.cons_append, List.nil_append, operands_delimiter, runs]
          simpa [consFirst] using later
        | slash =>
          rw [Separator.lexemes, List.cons_append, List.nil_append, slash, runs]
          simp [consFirst, behind]

/-! ### The tree of a row -/

def leafOf : Lexeme → Tree
  | .token text => token text
  | _ => separator .slash

def flatPart : Lexeme → Part
  | .token text => ⟨.token text, []⟩
  | _ => ⟨.slash, []⟩

theorem ofBalanced_flat {run : List Lexeme} (flat : ∀ x ∈ run, x.isFlat = true)
    (noComma : .comma ∉ run) : ofBalanced run = .ok (ofSequence (run.map leafOf)) := by
  have lexemes : ∀ x ∈ run, (flatPart x).lexemes = [x] := by
    intro x member
    have here := flat x member
    cases x with
    | comma => exact absurd member noComma
    | token text => rfl
    | slash => rfl
    | _ => cases here
  have whole : (run.map flatPart).flatMap Part.lexemes = run := by
    rw [List.flatMap_map, List.flatMap_congr lexemes, List.flatMap_singleton']
  have sound : ∀ part ∈ run.map flatPart, part.core.IsSound := by
    intro part member
    obtain ⟨x, -, rfl⟩ := List.mem_map.mp member
    cases x <;> trivial
  have built : List.Forall₂ (fun part tree => Part.tree part = .ok tree) (run.map flatPart)
      (run.map leafOf) := by
    rw [List.forall₂_map_left_iff, List.forall₂_map_right_iff, List.forall₂_same]
    intro x _
    cases x <;> rfl
  have sequence := ofBalanced_sequence sound built
  rw [whole] at sequence
  exact sequence

/-- The tree of a row: the list of its operands, if there is a comma. -/
def ofRow (items : List Lexeme) : Tree :=
  match operands .comma 0 items with
  | [run] => ofSequence (run.map leafOf)
  | runs => group .list (runs.map fun run => ofSequence (run.map leafOf))

theorem ofLexemes_flat {items : List Lexeme} (flat : ∀ x ∈ items, x.isFlat = true)
    (solid : [] ∉ operands .comma 0 items) : ofLexemes items = .ok (ofRow items) := by
  have each : ∀ run ∈ operands .comma 0 items,
      ofBalanced run = .ok (ofSequence (run.map leafOf)) := by
    intro run member
    apply ofBalanced_flat
    · intro x inside
      exact flat x (mem_of_mem_operands member inside)
    · exact not_mem_of_mem_operands flat run member
  unfold ofLexemes ofRow
  rw [if_pos (isBalanced_of_isFlat flat)]
  split
  · next run cut =>
    have whole : run = items := by
      have joined := intercalate_operands .comma 0 items
      rw [cut] at joined
      simpa [List.intercalate] using joined
    rw [cut] at each
    have built := each run List.mem_cons_self
    rw [whole] at built ⊢
    exact built
  · next several =>
    have enough : 2 ≤ (operands .comma 0 items).length := by
      cases runs : operands .comma 0 items with
      | nil => exact absurd runs (operands_ne_nil _ _ _)
      | cons first others =>
        cases others with
        | nil => exact absurd runs (several first)
        | cons second others =>
          simp only [List.length_cons]
          omega
    have cut : split? items = some ((.list, .comma), operands .comma 0 items) := by
      unfold split? Combinator.delimited
      rw [List.findSome?_cons]
      simp only [if_pos enough]
    refine ofBalanced_group cut solid ?_
    rw [List.forall₂_map_right_iff, List.forall₂_same]
    exact each

/-! ### What a row stands for -/

theorem excess?_ofSequence (limit : Nat) (trees : List Tree) :
    (ofSequence trees).excess? limit = childExcess? limit trees := by
  unfold ofSequence
  split
  · rfl
  · simp [childExcess?]
  · simp [childExcess?]
  · simp [excess?, Combinator.isUnordered]

theorem childExcess?_eq_none {limit : Nat} {trees : List Tree}
    (each : ∀ tree ∈ trees, tree.excess? limit = none) : childExcess? limit trees = none := by
  induction trees with
  | nil => rfl
  | cons tree trees ih =>
    rw [childExcess?, each tree List.mem_cons_self, Option.none_or]
    exact ih fun other member => each other (List.mem_cons_of_mem _ member)

theorem excess?_ofRow (limit : Nat) (items : List Lexeme) : (ofRow items).excess? limit = none := by
  have sequence (run : List Lexeme) : (ofSequence (run.map leafOf)).excess? limit = none := by
    rw [excess?_ofSequence]
    apply childExcess?_eq_none
    intro leaf member
    obtain ⟨x, -, rfl⟩ := List.mem_map.mp member
    cases x <;> rfl
  unfold ofRow
  split
  · exact sequence _
  · simp only [excess?, Combinator.isUnordered, Bool.false_and, Bool.false_eq_true, if_false]
    apply childExcess?_eq_none
    intro tree member
    obtain ⟨run, -, rfl⟩ := List.mem_map.mp member
    exact sequence run

variable {limits : Limits}

/-- Trees that stand for a single piece each. -/
def AreSingle (limits : Limits) (trees : List Tree) (pieces : List Piece) : Prop :=
  List.Forall₂ (fun tree piece => tree.alternatives limits = ⟨[piece], false⟩) trees pieces

theorem product_single {limit : Nat} (room : 1 ≤ limit) (joiner : Option Separator)
    (pieces : List Piece) :
    Alternatives.product limit joiner (pieces.map ([·])) =
      ⟨[Piece.joined joiner pieces], false⟩ := by
  have fold (front : Piece) : (pieces.map ([·])).foldl (Alternatives.extend limit joiner)
      ⟨[front], false⟩ = ⟨[pieces.foldl (Piece.append joiner) front], false⟩ := by
    induction pieces generalizing front with
    | nil => rfl
    | cons piece pieces ih =>
      have step : Alternatives.extend limit joiner ⟨[front], false⟩ [piece] =
          ⟨[Piece.append joiner front piece], false⟩ := by
        simp [Alternatives.extend, Alternatives.fill, room]
      rw [List.map_cons, List.foldl_cons, step, ih]
      rfl
  unfold Alternatives.product
  rw [fold, Piece.foldl_append, Piece.joined_cons_nil]

theorem childAlternatives_single {trees : List Tree} {pieces : List Piece}
    (single : AreSingle limits trees pieces) :
    (childAlternatives limits trees).map (·.pieces) = pieces.map ([·]) ∧
      (childAlternatives limits trees).any (·.truncated) = false := by
  induction single with
  | nil => exact ⟨rfl, rfl⟩
  | cons here _ ih =>
    simp only [childAlternatives, List.map_cons, List.any_cons, here, ih.1, ih.2]
    exact ⟨trivial, rfl⟩

theorem alternatives_group_single (room : 1 ≤ limits.variants) {combinator : Combinator}
    (ordered : combinator = .sequence ∨ combinator = .list) {trees : List Tree}
    {pieces : List Piece} (single : AreSingle limits trees pieces) :
    (group combinator trees).alternatives limits =
      ⟨[Piece.joined (if combinator = .list then some .comma else none) pieces], false⟩ := by
  obtain ⟨each, uncut⟩ := childAlternatives_single single
  simp only [alternatives, each, uncut]
  rcases ordered with rfl | rfl
  · simp only [Combinator.alternatives, product_single room]
    rfl
  · simp only [Combinator.alternatives, product_single room]
    rfl

theorem alternatives_ofSequence_single (room : 1 ≤ limits.variants) {trees : List Tree}
    {pieces : List Piece} (single : AreSingle limits trees pieces) :
    (ofSequence trees).alternatives limits = ⟨[pieces.flatten], false⟩ := by
  have alone {tree : Tree} (single : AreSingle limits [tree] pieces) :
      tree.alternatives limits = ⟨[pieces.flatten], false⟩ := by
    cases single with
    | cons here none =>
      cases none
      rw [here, List.flatten_singleton]
  unfold ofSequence
  split
  · exact alone single
  · exact alone single
  · exact alone single
  · exact alternatives_group_single room (Or.inl rfl) single

theorem joined_runs {runs : List (List Lexeme)} (solid : [] ∉ runs) :
    Piece.joined (some .comma) (runs.map (·.map Lexeme.atom)) =
      ([.comma].intercalate runs).map Lexeme.atom := by
  have nonempty : ∀ piece ∈ runs.map (·.map Lexeme.atom), (!piece.isEmpty) = true := by
    intro piece member
    obtain ⟨run, inside, rfl⟩ := List.mem_map.mp member
    cases run with
    | nil => exact absurd inside solid
    | cons x run => rfl
  simp only [Piece.joined, List.filter_eq_self.mpr nonempty]
  induction runs with
  | nil => rfl
  | cons run runs ih =>
    cases runs with
    | nil => simp [List.intercalate]
    | cons next runs =>
      have later := ih (fun member => solid (List.mem_cons_of_mem _ member))
        (fun piece member => nonempty piece (List.mem_cons_of_mem _ member))
      simp only [List.map_cons, List.intercalate_cons_cons, List.map_append] at later ⊢
      rw [later]
      rfl

/-- The tree of a row stands for the atoms of the row. -/
theorem alternatives_ofRow (room : 1 ≤ limits.variants) {items : List Lexeme}
    (flat : ∀ x ∈ items, x.isFlat = true) (solid : [] ∉ operands .comma 0 items) :
    (ofRow items).alternatives limits = ⟨[items.map Lexeme.atom], false⟩ := by
  have sequence {run : List Lexeme} (member : run ∈ operands .comma 0 items) :
      (ofSequence (run.map leafOf)).alternatives limits = ⟨[run.map Lexeme.atom], false⟩ := by
    have noComma := not_mem_of_mem_operands flat run member
    have single : AreSingle limits (run.map leafOf) (run.map fun x => [x.atom]) := by
      unfold AreSingle
      rw [List.forall₂_map_left_iff, List.forall₂_map_right_iff, List.forall₂_same]
      intro x inside
      have here := flat x (mem_of_mem_operands member inside)
      cases x with
      | token text => rfl
      | slash => rfl
      | comma => exact absurd inside noComma
      | _ => cases here
    rw [alternatives_ofSequence_single room single]
    have flattened : (run.map fun x => [x.atom]).flatten = run.map Lexeme.atom := by
      rw [← List.flatMap_def, ← List.map_eq_flatMap]
    rw [flattened]
  have joined := intercalate_operands .comma 0 items
  unfold ofRow
  split
  · next run cut =>
    rw [cut] at joined
    have whole : run = items := by simpa [List.intercalate] using joined
    have alone := sequence (cut ▸ List.mem_cons_self)
    rw [alone, whole]
  · have single : AreSingle limits
        ((operands .comma 0 items).map fun run => ofSequence (run.map leafOf))
        ((operands .comma 0 items).map (·.map Lexeme.atom)) := by
      unfold AreSingle
      rw [List.forall₂_map_left_iff, List.forall₂_map_right_iff, List.forall₂_same]
      exact fun run member => sequence member
    rw [alternatives_group_single room (Or.inr rfl) single, if_pos rfl, joined_runs solid, joined]

end Tree

/-! ### Without room -/

theorem Alternatives.pieces_fill_zero (joiner : Option Separator) (operand fronts : List Piece) :
    (fill joiner operand 0 fronts).pieces = [] := by
  induction fronts with
  | nil => rfl
  | cons front fronts ih =>
    simp only [fill, Nat.zero_sub]
    split
    · next short =>
      rw [ih, List.eq_nil_of_length_eq_zero (Nat.le_zero.mp short)]
      rfl
    · rfl

theorem Alternatives.eq_nil_of_mem_product_zero {joiner : Option Separator}
    {operands : List (List Piece)} {piece : Piece}
    (member : piece ∈ (product 0 joiner operands).pieces) : piece = [] := by
  rcases List.eq_nil_or_concat operands with rfl | ⟨front, operand, rfl⟩
  · exact List.mem_singleton.mp member
  · unfold product at member
    rw [List.concat_eq_append, List.foldl_concat] at member
    simp only [extend, pieces_fill_zero] at member
    cases member

theorem Gathering.pieces_collect_zero {α : Type} (batch : α → Alternatives) (sources : List α) :
    (empty.collect 0 batch sources).pieces = [] := by
  have insert (gathering : Gathering) (piece : Piece) :
      (gathering.insert 0 piece).kept = gathering.kept := by
    unfold Gathering.insert
    dsimp only
    split
    · rfl
    · rw [if_pos (Nat.zero_le _)]
  have insertAll (gathering : Gathering) (pieces : List Piece) :
      (gathering.insertAll 0 pieces).kept = gathering.kept := by
    induction pieces generalizing gathering with
    | nil => rfl
    | cons piece rest ih =>
      simp only [Gathering.insertAll]
      split
      · exact insert gathering piece
      · rw [ih, insert]
  have collect (gathering : Gathering) :
      (gathering.collect 0 batch sources).kept = gathering.kept := by
    induction sources generalizing gathering with
    | nil => rfl
    | cons source rest ih =>
      simp only [Gathering.collect]
      split
      · exact insertAll _ _
      · rw [ih]
        exact insertAll _ _
  rw [pieces, collect]
  rfl

/-- Without room only leaves stand for anything, so no piece has more than one atom. -/
theorem Tree.length_le_one_of_no_room {limits : Limits} (none : limits.variants = 0) {tree : Tree}
    {piece : Piece} (member : piece ∈ (tree.alternatives limits).pieces) : piece.length ≤ 1 := by
  cases tree with
  | token text =>
    rw [List.mem_singleton.mp member]
    exact Nat.le_refl 1
  | separator s =>
    rw [List.mem_singleton.mp member]
    exact Nat.le_refl 1
  | group combinator children =>
    have gathered {batch : List (List Piece) → Alternatives} {sources : List (List (List Piece))} :
        piece ∉ (Gathering.empty.collect 0 batch sources).byLength.pieces := by
      rw [Gathering.mem_byLength, Gathering.pieces_collect_zero]
      exact List.not_mem_nil
    simp only [alternatives, Combinator.alternatives, none] at member
    cases combinator with
    | sequence =>
      rw [Alternatives.eq_nil_of_mem_product_zero member]
      exact Nat.zero_le 1
    | list =>
      rw [Alternatives.eq_nil_of_mem_product_zero member]
      exact Nat.zero_le 1
    | choice =>
      rw [Gathering.mem_byLength, Gathering.pieces_collect_zero] at member
      cases member
    | someOf => exact absurd member gathered
    | allOf => exact absurd member gathered
  | repeated body m =>
    simp only [alternatives, Multiplier.alternatives_eq_collect, none] at member
    rw [Gathering.pieces_inOrder, Gathering.pieces_collect_zero] at member
    cases member

end ValueGrammar
