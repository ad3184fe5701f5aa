import Mathlib.Data.List.GetD
import ValueGrammar.Proofs.Piece.Choices
import ValueGrammar.Proofs.Piece.Enumeration
import ValueGrammar.Proofs.Tree.Readings

/-!
Where the pieces of a group come from. A row is made from some operands in some order and from a piece
of each of them, so positions say where it comes from, and they also say when it is generated. Gathering
keeps of the rows with one text the one generated first.
-/
namespace ValueGrammar

/-- Where a row comes from: the positions of its operands, each with that of the piece chosen. -/
abbrev Origin := List (Nat × Nat)

namespace Origin

def order (origin : Origin) : List Nat :=
  origin.map Prod.fst

/-- The positions of the pieces among those of their operands. -/
def choice (origin : Origin) : List Nat :=
  origin.map Prod.snd

/-- Rows are generated by the ranks of their orders, and those of one order in the lexicographic order
of the pieces chosen. -/
def rank (origin : Origin) : (Nat ×ₗ Nat ×ₗ List Nat) ×ₗ List Nat :=
  toLex (Arrangement.rank origin.order, origin.choice)

variable {limits : Limits} {combinator : Combinator} {operands : List (List Piece)}
  {origin : Origin}

def width (operands : List (List Piece)) (position : Nat) : Nat :=
  (operands.getD position []).length

def pick (operands : List (List Piece)) (position : Nat × Nat) : Piece :=
  (operands.getD position.1 []).getD position.2 []

def piece (operands : List (List Piece)) (origin : Origin) : Piece :=
  Piece.joined none (origin.map (pick operands))

/-- The number of a row among those of its order, counted in lexicographic order. -/
def number (operands : List (List Piece)) : Origin → Nat
  | [] => 0
  | position :: rest =>
    position.2 * (rest.map fun other => width operands other.1).prod + number operands rest

/-- A row is generated if the combinator chooses its operands in its order, unless there is no room for
it among the rows of the order. For a choice the operands are taken as they are. -/
structure IsGenerated (limits : Limits) (combinator : Combinator) (operands : List (List Piece))
    (origin : Origin) : Prop where
  ordered : combinator.Chooses (List.range operands.length) origin.order
  chosen : ∀ position ∈ origin, position.2 < width operands position.1
  room : combinator ≠ .choice → origin.number operands < limits.variants

/-- A row is generated before all others with its text. -/
structure IsFirst (limits : Limits) (combinator : Combinator) (operands : List (List Piece))
    (origin : Origin) : Prop where
  generated : origin.IsGenerated limits combinator operands
  least : ∀ other : Origin, other.IsGenerated limits combinator operands →
    (other.piece operands).text = (origin.piece operands).text → origin.rank ≤ other.rank

/-! ### The rows of one order -/

def rowsOf (operands : List (List Piece)) (order : List Nat) : List Origin :=
  choices (order.map fun position => (List.range (width operands position)).map (Prod.mk position))

theorem rowsOf_cons (operands : List (List Piece)) (position : Nat) (order : List Nat) :
    rowsOf operands (position :: order) = (List.range (width operands position)).flatMap fun chosen =>
      (rowsOf operands order).map ((position, chosen) :: ·) := by
  rw [rowsOf, List.map_cons, choices, List.flatMap_map]
  rfl

theorem mem_rowsOf {order : List Nat} : origin ∈ rowsOf operands order ↔
    origin.order = order ∧ ∀ position ∈ origin, position.2 < width operands position.1 := by
  induction order generalizing origin with
  | nil => cases origin <;> simp [rowsOf, choices, Origin.order]
  | cons position order ih =>
    simp only [rowsOf_cons, List.mem_flatMap, List.mem_map, List.mem_range, ih]
    constructor
    · rintro ⟨chosen, within, rest, ⟨rfl, below⟩, rfl⟩
      exact ⟨rfl, List.forall_mem_cons.mpr ⟨within, below⟩⟩
    · rintro ⟨ordered, below⟩
      cases origin with
      | nil => cases ordered
      | cons first rest =>
        obtain ⟨rfl, rfl⟩ := List.cons.inj ordered
        obtain ⟨within, below⟩ := List.forall_mem_cons.mp below
        exact ⟨first.2, within, rest, ⟨rfl, below⟩, rfl⟩

/-- The rows of one order stand in the lexicographic order of the pieces chosen. -/
theorem pairwise_rowsOf (operands : List (List Piece)) (order : List Nat) :
    (rowsOf operands order).Pairwise fun origin origin' => origin.choice < origin'.choice := by
  rw [← List.pairwise_map]
  induction order with
  | nil => exact List.pairwise_singleton _ _
  | cons position order ih =>
    have choices : (rowsOf operands (position :: order)).map choice =
        (List.range (width operands position)).flatMap fun chosen =>
          ((rowsOf operands order).map choice).map (chosen :: ·) := by
      simp only [rowsOf_cons, List.map_flatMap, List.map_map]
      rfl
    rw [choices]
    exact Arrangement.pairwise_flatMap_cons List.pairwise_lt_range fun _ _ => ih

theorem length_rowsOf (operands : List (List Piece)) (order : List Nat) :
    (rowsOf operands order).length = (order.map (width operands)).prod := by
  induction order with
  | nil => rfl
  | cons position order ih =>
    simp [rowsOf_cons, List.length_flatMap, ih]

theorem getElem?_flatMap_range {α : Type} {block : Nat → List α} {size bound index offset : Nat}
    (uniform : ∀ i, (block i).length = size) (within : index < bound) (inside : offset < size) :
    ((List.range bound).flatMap block)[index * size + offset]? = (block index)[offset]? := by
  obtain ⟨others, rfl⟩ := Nat.exists_eq_add_of_lt within
  have before : ((List.range index).flatMap block).length = index * size := by
    simp [List.length_flatMap, uniform]
  rw [Nat.add_assoc, List.range_add, List.flatMap_append, List.range_succ_eq_map, List.map_cons,
    List.flatMap_cons, Nat.add_zero, List.getElem?_append_right (by omega), before,
    Nat.add_sub_cancel_left, List.getElem?_append_left (by rw [uniform]; exact inside)]

/-- A row has its number among the rows of its order. -/
theorem getElem?_rowsOf {order : List Nat} (member : origin ∈ rowsOf operands order) :
    (rowsOf operands order)[origin.number operands]? = some origin := by
  induction order generalizing origin with
  | nil =>
    obtain rfl := List.mem_singleton.mp member
    rfl
  | cons position order ih =>
    rw [rowsOf_cons] at member ⊢
    obtain ⟨chosen, within, member⟩ := List.mem_flatMap.mp member
    obtain ⟨rest, behind, rfl⟩ := List.mem_map.mp member
    have size : (rest.map fun other => width operands other.1).prod = (rowsOf operands order).length := by
      rw [length_rowsOf, ← (mem_rowsOf.mp behind).1, Origin.order, List.map_map]
      rfl
    have found := ih behind
    obtain ⟨inside, -⟩ := List.getElem?_eq_some_iff.mp found
    -- The rows with one choice from the first operand are a block, and all blocks have one size.
    rw [number, size, getElem?_flatMap_range (fun _ => List.length_map _) (List.mem_range.mp within)
      inside, List.getElem?_map, found]
    rfl

/-- A list read by positions. -/
theorem map_getD_range {α : Type} (xs : List α) (default : α) :
    ((List.range xs.length).map fun i => xs.getD i default) = xs := by
  refine List.ext_getElem (by simp) fun i _ within => ?_
  rw [List.getElem_map, List.getElem_range, List.getD_eq_getElem _ _ within]

/-- The pieces of the rows of one order are the rows of pieces. -/
theorem map_piece_rowsOf (operands : List (List Piece)) (order : List Nat) :
    (rowsOf operands order).map (piece operands) =
      (choices (order.map fun position => operands.getD position [])).map (Piece.joined none) := by
  have picked : (order.map fun position => operands.getD position []) =
      (order.map fun position => (List.range (width operands position)).map (Prod.mk position)).map
        (List.map (pick operands)) := by
    rw [List.map_map]
    refine List.map_congr_left fun position _ => ?_
    rw [Function.comp_apply, List.map_map]
    exact (map_getD_range (operands.getD position []) []).symm
  rw [picked, choices_map, List.map_map]
  rfl

end Origin

end ValueGrammar
