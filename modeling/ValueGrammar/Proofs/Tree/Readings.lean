import Mathlib.Data.Set.Basic
import ValueGrammar.Proofs.Piece.Arrangement
import ValueGrammar.Proofs.Piece.Gathering
import ValueGrammar.Proofs.Piece.Normalization
import ValueGrammar.Proofs.Piece.Product
import ValueGrammar.Proofs.Pointwise
import ValueGrammar.Proofs.Tree.Leaves
import ValueGrammar.Tree.Alternatives

/-!
What a combinator tree means: the pieces that it may be read as, defined from the readings of its
operands without limits on their number, without gathering and without an order among them. The
pieces that an expansion builds are readings; those of a tree without separators are all of them,
unless something has been cut off.
-/
namespace ValueGrammar

/-! ### Readings -/

/-- The rows of one piece for each operand, with a joiner between those that are not empty. -/
def rows (joiner : Option Separator) (operands : List (Set Piece)) : Set Piece :=
  fun piece => ∃ row, List.Forall₂ (· ∈ ·) row operands ∧ piece = Piece.joined joiner row

/-- The operands that a combinator may put in a row. -/
def Combinator.Chooses {α : Type} (combinator : Combinator) (operands chosen : List α) : Prop :=
  match combinator with
  | .sequence => chosen = operands
  | .list => chosen = operands
  | .choice => ∃ operand ∈ operands, chosen = [operand]
  | .someOf => chosen ≠ [] ∧ chosen.Subperm operands
  | .allOf => chosen.Perm operands

def Combinator.joiner : Combinator → Option Separator
  | .list => some .comma
  | _ => none

def Combinator.readings (combinator : Combinator) (operands : List (Set Piece)) : Set Piece :=
  fun piece => ∃ chosen, combinator.Chooses operands chosen ∧ piece ∈ rows combinator.joiner chosen

/-- Whether so many repetitions are allowed where none may exceed the limit: at least the least
count and at most the greatest, both brought below the limit. -/
def Multiplier.Allows (m : Multiplier) (limit count : Nat) : Prop :=
  Nat.min m.min limit ≤ count ∧
    count ≤ Nat.max (Nat.min m.min limit) (Nat.min (m.max?.getD limit) limit)

/-- The readings of a repetition, each chosen for itself. -/
def Multiplier.readings (m : Multiplier) (limit : Nat) (operand : Set Piece) : Set Piece :=
  fun piece => ∃ count, m.Allows limit count ∧ piece ∈ rows m.joiner (List.replicate count operand)

namespace Tree

mutual

/-- The readings of a tree, with counts of repetitions up to a limit. -/
def readings (limit : Nat) : Tree → Set Piece
  | token text => {[.token text]}
  | separator s => {[.separator s]}
  | group combinator children => combinator.readings (childReadings limit children)
  | repeated body m => m.readings limit (readings limit body)

def childReadings (limit : Nat) : List Tree → List (Set Piece)
  | [] => []
  | child :: children => readings limit child :: childReadings limit children

end

end Tree

/-! ### Choosing operands -/

namespace Combinator

variable {combinator : Combinator}

def IsOrderless (combinator : Combinator) : Prop :=
  combinator ∈ [choice, someOf, allOf]

instance (combinator : Combinator) : Decidable combinator.IsOrderless :=
  inferInstanceAs (Decidable (combinator ∈ [choice, someOf, allOf]))

/-- The same choice can be made among related operands. -/
theorem Chooses.transfer {α β : Type} {R : α → β → Prop} {operands chosen : List α}
    {operands' : List β} (related : List.Forall₂ R operands operands')
    (choice : combinator.Chooses operands chosen) :
    ∃ chosen', combinator.Chooses operands' chosen' ∧ List.Forall₂ R chosen chosen' := by
  cases combinator with
  | sequence =>
    cases choice
    exact ⟨operands', rfl, related⟩
  | list =>
    cases choice
    exact ⟨operands', rfl, related⟩
  | choice =>
    obtain ⟨operand, member, rfl⟩ := choice
    obtain ⟨chosen', sublist, behind⟩ :=
      exists_forall₂_sublist related (List.singleton_sublist.mpr member)
    cases behind with
    | cons here none =>
      cases none
      exact ⟨_, ⟨_, List.singleton_sublist.mp sublist, rfl⟩, .cons here .nil⟩
  | someOf =>
    obtain ⟨nonempty, sorted, perm, sublist⟩ := choice
    obtain ⟨sorted', sublist', behind⟩ := exists_forall₂_sublist related sublist
    obtain ⟨chosen', here, perm'⟩ := List.perm_comp_forall₂ perm.symm behind
    refine ⟨chosen', ⟨?_, sorted', perm'.symm, sublist'⟩, here⟩
    intro given
    subst given
    cases here
    exact nonempty rfl
  | allOf =>
    obtain ⟨chosen', here, perm'⟩ := List.perm_comp_forall₂ choice related
    exact ⟨chosen', perm', here⟩

theorem Chooses.subset {α : Type} {operands chosen : List α}
    (choice : combinator.Chooses operands chosen) : chosen ⊆ operands := by
  cases combinator with
  | sequence =>
    cases choice
    exact List.Subset.refl operands
  | list =>
    cases choice
    exact List.Subset.refl operands
  | choice =>
    obtain ⟨operand, member, rfl⟩ := choice
    exact List.cons_subset.mpr ⟨member, List.nil_subset operands⟩
  | someOf => exact choice.2.subset
  | allOf => exact List.Perm.subset choice

/-! ### The pieces of a group -/

variable {limits : Limits} {operands : List (List Piece)} {piece : Piece}

/-- A piece of a group is a row of pieces of the operands chosen. -/
theorem of_mem_alternatives (member : piece ∈ (combinator.alternatives limits operands).pieces) :
    ∃ chosen, combinator.Chooses operands chosen ∧ ∃ row, List.Forall₂ (· ∈ ·) row chosen ∧
      piece = Piece.joined combinator.joiner row := by
  cases combinator with
  | sequence => exact ⟨operands, rfl, Alternatives.of_mem_product member⟩
  | list => exact ⟨operands, rfl, Alternatives.of_mem_product member⟩
  | choice =>
    obtain ⟨operand, ofOperands, inside⟩ :=
      Gathering.of_mem_collect (Gathering.mem_byLength.mp member)
    exact ⟨[operand], ⟨operand, ofOperands, rfl⟩, [piece], .cons inside .nil,
      (Piece.joined_singleton none piece).symm⟩
  | someOf =>
    obtain ⟨chosen, arranged, inside⟩ :=
      Gathering.of_mem_collect (Gathering.mem_byLength.mp member)
    exact ⟨chosen, Arrangement.mem_arrangements.mp arranged, Alternatives.of_mem_product inside⟩
  | allOf =>
    obtain ⟨chosen, ordered, inside⟩ :=
      Gathering.of_mem_collect (Gathering.mem_byLength.mp member)
    exact ⟨chosen, Arrangement.mem_orderings.mp ordered, Alternatives.of_mem_product inside⟩

end Combinator

/-- A piece of a batch has a gathered piece with its text, unless something is cut off. -/
theorem Gathering.exists_mem_collect {α : Type} {limit : Nat} {batch : α → Alternatives}
    {sources : List α} (uncut : (empty.collect limit batch sources).truncated = false) {source : α}
    (member : source ∈ sources) {piece : Piece} (inside : piece ∈ (batch source).pieces) :
    ∃ kept ∈ (empty.collect limit batch sources).pieces, kept.text = piece.text := by
  rw [pieces_collect uncut]
  exact Piece.exists_mem_distinct (List.mem_flatMap.mpr ⟨source, member, inside⟩) List.not_mem_nil

namespace Combinator

variable {combinator : Combinator} {limits : Limits} {operands : List (List Piece)}

/-- Every row of pieces of chosen operands has a piece with its text, unless something is cut
off. -/
theorem exists_mem_alternatives (uncut : (combinator.alternatives limits operands).truncated = false)
    {chosen : List (List Piece)} (choice : combinator.Chooses operands chosen) {row : List Piece}
    (inside : List.Forall₂ (· ∈ ·) row chosen) :
    ∃ piece ∈ (combinator.alternatives limits operands).pieces,
      piece.text = (Piece.joined combinator.joiner row).text := by
  have gathered {batch : List (List Piece) → Alternatives} {sources : List (List (List Piece))}
      (all : (Gathering.empty.collect limits.variants batch sources).truncated = false)
      (member : chosen ∈ sources) {piece : Piece} (ofBatch : piece ∈ (batch chosen).pieces) :
      ∃ kept ∈ (Gathering.empty.collect limits.variants batch sources).byLength.pieces,
        kept.text = piece.text := by
    obtain ⟨kept, held, same⟩ := Gathering.exists_mem_collect all member ofBatch
    exact ⟨kept, Gathering.mem_byLength.mpr held, same⟩
  cases combinator with
  | sequence =>
    cases choice
    exact ⟨_, Alternatives.mem_product uncut inside, rfl⟩
  | list =>
    cases choice
    exact ⟨_, Alternatives.mem_product uncut inside, rfl⟩
  | choice =>
    obtain ⟨operand, member, rfl⟩ := choice
    cases inside with
    | cons held none =>
      cases none
      obtain ⟨kept, ofKept, same⟩ := Gathering.exists_mem_collect uncut member held
      refine ⟨kept, Gathering.mem_byLength.mpr ofKept, ?_⟩
      rw [same]
      exact congrArg Piece.text (Piece.joined_singleton none _).symm
  | someOf =>
    have listed := Arrangement.mem_arrangements.mpr choice
    have whole := (Gathering.uncut_of_collect uncut).2 chosen listed
    exact gathered uncut listed (Alternatives.mem_product whole inside)
  | allOf =>
    have listed := Arrangement.mem_orderings.mpr choice
    have whole := (Gathering.uncut_of_collect uncut).2 chosen listed
    exact gathered uncut listed (Alternatives.mem_product whole inside)

end Combinator

/-! ### The pieces of a repetition -/

namespace Multiplier

variable {m : Multiplier} {limits : Limits} {pieces : List Piece}

theorem mem_counts {limit count : Nat} : count ∈ m.counts limit ↔ m.Allows limit count := by
  have low : m.least limit ≤ m.greatest limit := Nat.le_max_left _ _
  rw [counts, span, List.mem_range'_1, Allows]
  change _ ↔ m.least limit ≤ count ∧ count ≤ m.greatest limit
  omega

theorem of_mem_alternatives {piece : Piece} (member : piece ∈ (m.alternatives limits pieces).pieces) :
    ∃ count, m.Allows limits.repetitions count ∧ ∃ row,
      List.Forall₂ (· ∈ ·) row (List.replicate count pieces) ∧
        piece = Piece.joined m.joiner row := by
  rw [alternatives_eq_collect] at member
  obtain ⟨count, counted, inside⟩ := Gathering.of_mem_collect member
  exact ⟨count, mem_counts.mp counted, Alternatives.of_mem_product inside⟩

theorem exists_mem_alternatives (uncut : (m.alternatives limits pieces).truncated = false)
    {count : Nat} (allowed : m.Allows limits.repetitions count) {row : List Piece}
    (inside : List.Forall₂ (· ∈ ·) row (List.replicate count pieces)) :
    ∃ piece ∈ (m.alternatives limits pieces).pieces,
      piece.text = (Piece.joined m.joiner row).text := by
  rw [alternatives_eq_collect] at uncut ⊢
  have counted := mem_counts.mpr allowed
  have whole := (Gathering.uncut_of_collect uncut).2 count counted
  exact Gathering.exists_mem_collect uncut counted (Alternatives.mem_product whole inside)

end Multiplier

namespace Tree

variable {limits : Limits}

/-! ### Every piece is a reading -/

mutual

/-- The pieces of a tree are readings of it, whether or not some have been cut off. -/
theorem readings_of_mem_alternatives : ∀ (tree : Tree) {piece : Piece},
    piece ∈ (tree.alternatives limits).pieces → piece ∈ tree.readings limits.repetitions
  | token text, piece, member => List.mem_singleton.mp member
  | separator s, piece, member => List.mem_singleton.mp member
  | group combinator children, piece, member => by
    have sound := childReadings_of_mem_alternatives children
    obtain ⟨chosen, choice, row, inside, rfl⟩ := Combinator.of_mem_alternatives member
    obtain ⟨chosen', choice', related⟩ := choice.transfer sound
    exact ⟨chosen', choice', row, forall₂_trans (fun _ _ _ held all => all _ held) inside related,
      rfl⟩
  | repeated body m, piece, member => by
    have sound : ∀ piece ∈ (body.alternatives limits).pieces,
        piece ∈ body.readings limits.repetitions := fun _ => readings_of_mem_alternatives body
    obtain ⟨count, allowed, row, inside, rfl⟩ := Multiplier.of_mem_alternatives member
    have related := forall₂_replicate (R := fun pieces readings => ∀ piece ∈ pieces,
      piece ∈ readings) sound count
    exact ⟨count, allowed, row, forall₂_trans (fun _ _ _ held all => all _ held) inside related,
      rfl⟩

theorem childReadings_of_mem_alternatives : ∀ children : List Tree,
    List.Forall₂ (fun (pieces : List Piece) (readings : Set Piece) =>
        ∀ piece ∈ pieces, piece ∈ readings)
      ((childAlternatives limits children).map (·.pieces))
      (childReadings limits.repetitions children)
  | [] => .nil
  | child :: children =>
    .cons (fun _ => readings_of_mem_alternatives child) (childReadings_of_mem_alternatives children)

end

/-! ### What readings are made of -/

end Tree

/-- What putting two pieces together preserves holds of every row of pieces for which it holds. -/
theorem rows_induction {motive : Piece → Prop} {joiner : Option Separator} (nil : motive [])
    (step : ∀ first second, motive first → motive second →
      motive (Piece.append joiner first second))
    {operands : List (Set Piece)} (each : ∀ operand ∈ operands, ∀ piece ∈ operand, motive piece)
    {piece : Piece} (member : piece ∈ rows joiner operands) : motive piece := by
  obtain ⟨row, inside, rfl⟩ := member
  apply Piece.joined_induction nil step
  intro piece ofRow
  obtain ⟨operand, ofOperands, held⟩ := exists_mem_of_forall₂ inside ofRow
  exact each operand ofOperands piece held

theorem Combinator.joiner_eq (combinator : Combinator) :
    combinator.joiner = none ∨ combinator.joiner = some .comma := by
  cases combinator with
  | list => exact Or.inr rfl
  | _ => exact Or.inl rfl

theorem Multiplier.joiner_eq (m : Multiplier) : m.joiner = none ∨ m.joiner = some .comma := by
  unfold joiner
  split
  · exact Or.inr rfl
  · exact Or.inl rfl

namespace Tree

variable {limit : Nat} {motive : Piece → Prop}

mutual

/-- What putting two pieces together preserves, with or without a comma between them, holds of
the readings of a tree if it holds of its leaves. -/
theorem readings_induction (nil : motive [])
    (step : ∀ joiner, joiner = none ∨ joiner = some .comma → ∀ first second, motive first →
      motive second → motive (Piece.append joiner first second)) :
    ∀ (tree : Tree), (∀ atom ∈ tree.leaves, motive [atom]) →
      ∀ piece ∈ tree.readings limit, motive piece
  | token text, each, piece, member => by
    obtain rfl : piece = [.token text] := member
    exact each _ List.mem_cons_self
  | separator s, each, piece, member => by
    obtain rfl : piece = [.separator s] := member
    exact each _ List.mem_cons_self
  | group combinator children, each, piece, member => by
    obtain ⟨chosen, choice, row⟩ := member
    apply rows_induction nil (step _ combinator.joiner_eq) _ row
    intro operand ofChosen
    exact childReadings_induction nil step children each operand (choice.subset ofChosen)
  | repeated body m, each, piece, member => by
    obtain ⟨count, -, row⟩ := member
    apply rows_induction nil (step _ m.joiner_eq) _ row
    intro operand repeated piece inside
    rw [List.eq_of_mem_replicate repeated] at inside
    exact readings_induction nil step body each piece inside

theorem childReadings_induction (nil : motive [])
    (step : ∀ joiner, joiner = none ∨ joiner = some .comma → ∀ first second, motive first →
      motive second → motive (Piece.append joiner first second)) :
    ∀ (children : List Tree), (∀ atom ∈ childLeaves children, motive [atom]) →
      ∀ readings ∈ childReadings limit children, ∀ piece ∈ readings, motive piece
  | [], _, readings, member, _, _ => by cases member
  | child :: children, each, readings, member, piece, inside => by
    rcases List.mem_cons.mp member with rfl | later
    · have here : ∀ atom ∈ child.leaves, motive [atom] := fun atom ofChild =>
        each atom (List.mem_append_left _ ofChild)
      exact readings_induction nil step child here piece inside
    · have others : ∀ atom ∈ childLeaves children, motive [atom] := fun atom ofOthers =>
        each atom (List.mem_append_right _ ofOthers)
      exact childReadings_induction nil step children others readings later piece inside

end

theorem of_mem_append {joiner : Option Separator} {first second : Piece} {atom : Atom}
    (member : atom ∈ Piece.append joiner first second) :
    atom ∈ first ∨ atom ∈ second ∨ ∃ s, joiner = some s ∧ atom = .separator s := by
  unfold Piece.append at member
  split at member
  · next s =>
    split at member
    · rcases List.mem_append.mp member with front | back
      · exact Or.inl front
      · exact Or.inr (Or.inl back)
    · rcases List.mem_append.mp member with front | back
      · exact Or.inl front
      · rcases List.mem_cons.mp back with rfl | behind
        · exact Or.inr (Or.inr ⟨s, rfl, rfl⟩)
        · exact Or.inr (Or.inl behind)
  · rcases List.mem_append.mp member with front | back
    · exact Or.inl front
    · exact Or.inr (Or.inl back)

/-- The tokens of a reading are leaves of the tree. -/
theorem leaves_of_mem_readings {tree : Tree} {piece : Piece} (member : piece ∈ tree.readings limit)
    {text : String} (inside : .token text ∈ piece) : .token text ∈ tree.leaves := by
  have all : ∀ text, .token text ∈ piece → .token text ∈ tree.leaves := by
    apply readings_induction _ _ tree _ piece member
    · intro text none
      cases none
    · intro joiner _ first second inFirst inSecond text inside
      rcases of_mem_append inside with front | back | ⟨s, -, eq⟩
      · exact inFirst text front
      · exact inSecond text back
      · cases eq
    · intro atom leaf text here
      rw [List.mem_singleton.mp here]
      exact leaf
  exact all text inside

/-- The readings of a tree without separators are tight. -/
theorem tight_of_mem_readings {tree : Tree} (unseparated : ∀ s, .separator s ∉ tree.leaves)
    {piece : Piece} (member : piece ∈ tree.readings limit) : piece.Tight := by
  apply readings_induction Piece.tight_nil _ tree _ piece member
  · intro joiner comma first second left right
    apply Piece.tight_append left right
    rcases comma with rfl | rfl <;> decide
  · intro atom leaf
    cases atom with
    | token text => exact Piece.tight_token text
    | separator s => exact absurd leaf (unseparated s)

/-! ### Every reading is a piece -/

/-- The leaves of trees whose readings their texts tell apart: written tokens, and no separators. -/
def Plain (leaves : List Atom) : Prop :=
  ∀ atom ∈ leaves, ∃ text, atom = .token text ∧ Written text

theorem eq_of_text {tree : Tree} (plain : Plain tree.leaves) {p q : Piece}
    (left : p ∈ tree.readings limit) (right : q ∈ tree.readings limit) (same : p.text = q.text) :
    p = q := by
  have unseparated : ∀ s, .separator s ∉ tree.leaves := by
    intro s member
    obtain ⟨text, eq, -⟩ := plain _ member
    cases eq
  have written {piece : Piece} (member : piece ∈ tree.readings limit) :
      ∀ text, .token text ∈ piece → Written text := by
    intro text inside
    obtain ⟨text', eq, written⟩ := plain _ (leaves_of_mem_readings member inside)
    cases eq
    exact written
  apply (tight_of_mem_readings unseparated left).eq (tight_of_mem_readings unseparated right)
  exact Piece.normalize_eq_of_text (written left) (written right) same

mutual

/-- All readings of a tree without separators are among its pieces, unless something has been cut
off. -/
theorem mem_alternatives_of_readings : ∀ (tree : Tree), Plain tree.leaves →
    (tree.alternatives limits).truncated = false →
    ∀ piece ∈ tree.readings limits.repetitions, piece ∈ (tree.alternatives limits).pieces
  | token text, _, _, piece, member => List.mem_singleton.mpr member
  | separator s, _, _, piece, member => List.mem_singleton.mpr member
  | group combinator children, plain, uncut, piece, member => by
    have original := member
    obtain ⟨chosen, choice, row, inside, rfl⟩ := member
    simp only [alternatives, Bool.or_eq_false_iff, List.any_eq_false] at uncut
    have uncutOperands : ∀ operand ∈ childAlternatives limits children,
        operand.truncated = false := fun operand ofChildren => by
      simpa using uncut.1 operand ofChildren
    have complete := mem_childAlternatives_of_readings children plain uncutOperands
    obtain ⟨chosen', choice', related⟩ := choice.transfer complete
    have inside' := forall₂_trans (fun _ _ _ held all => all _ held) inside related
    obtain ⟨kept, held, same⟩ := Combinator.exists_mem_alternatives uncut.2 choice' inside'
    have eq := eq_of_text plain (readings_of_mem_alternatives _ held) original same
    rw [← eq]
    exact held
  | repeated body m, plain, uncut, piece, member => by
    have original := member
    obtain ⟨count, allowed, row, inside, rfl⟩ := member
    simp only [alternatives, Bool.or_eq_false_iff] at uncut
    have complete := mem_alternatives_of_readings body plain uncut.1
    have related := forall₂_replicate (R := fun (readings : Set Piece) (pieces : List Piece) =>
      ∀ piece ∈ readings, piece ∈ pieces) complete count
    have inside' := forall₂_trans (fun _ _ _ held all => all _ held) inside related
    obtain ⟨kept, held, same⟩ := Multiplier.exists_mem_alternatives uncut.2 allowed inside'
    have eq := eq_of_text plain (readings_of_mem_alternatives _ held) original same
    rw [← eq]
    exact held

theorem mem_childAlternatives_of_readings : ∀ (children : List Tree), Plain (childLeaves children) →
    (∀ operand ∈ childAlternatives limits children, operand.truncated = false) →
    List.Forall₂ (fun (readings : Set Piece) (pieces : List Piece) =>
        ∀ piece ∈ readings, piece ∈ pieces)
      (childReadings limits.repetitions children)
      ((childAlternatives limits children).map (·.pieces))
  | [], _, _ => .nil
  | child :: children, plain, uncut => by
    have here : Plain child.leaves := fun atom member => plain atom (List.mem_append_left _ member)
    have others : Plain (childLeaves children) := fun atom member =>
      plain atom (List.mem_append_right _ member)
    constructor
    · exact mem_alternatives_of_readings child here (uncut _ List.mem_cons_self)
    · exact mem_childAlternatives_of_readings children others fun operand member =>
        uncut operand (List.mem_cons_of_mem _ member)

end

end Tree

end ValueGrammar
