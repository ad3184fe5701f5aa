import ValueGrammar.Proofs.Piece.Gathering
import ValueGrammar.Proofs.Piece.Product

/-!
Room for pieces. Products and gatherings hold no more pieces than the limit allows, and whatever is
not cut off under one limit comes out the same under every greater one.
-/
namespace ValueGrammar

variable {limit limit' : Nat}

/-! ### Products -/

namespace Alternatives

variable {joiner : Option Separator} {operand : List Piece} {operands : List (List Piece)}
  {front : Alternatives}

/-- What is filled in is as much of all rows as there is room for; it is cut off if they are more. -/
theorem fill_eq_take (joiner : Option Separator) (operand : List Piece) (room : Nat)
    (fronts : List Piece) :
    fill joiner operand room fronts =
      ⟨(fronts.flatMap fun front => operand.map (Piece.append joiner front)).take room,
        decide (room < (fronts.flatMap fun front =>
          operand.map (Piece.append joiner front)).length)⟩ := by
  induction fronts generalizing room with
  | nil => simp [fill]
  | cons front fronts ih =>
    simp only [fill, List.flatMap_cons, List.length_append, List.take_append]
    split
    · next fits =>
      rw [ih, List.take_of_length_le fits, Alternatives.mk.injEq]
      refine ⟨rfl, ?_⟩
      rw [decide_eq_decide]
      omega
    · next exceeded =>
      have none : room - (operand.map (Piece.append joiner front)).length = 0 := by omega
      rw [none, List.take_zero, List.append_nil, Alternatives.mk.injEq]
      refine ⟨rfl, ?_⟩
      rw [eq_comm, decide_eq_true_eq]
      omega

theorem length_extend_le (limit : Nat) (joiner : Option Separator) (front : Alternatives)
    (operand : List Piece) : (extend limit joiner front operand).pieces.length ≤ limit := by
  rw [extend, fill_eq_take]
  exact List.length_take_le _ _

theorem extend_of_le (atMost : limit ≤ limit')
    (uncut : (extend limit joiner front operand).truncated = false) :
    extend limit' joiner front operand = extend limit joiner front operand := by
  rw [extend, fill_eq_take, Bool.or_eq_false_iff, decide_eq_false_iff_not] at uncut
  have fits := Nat.le_of_not_lt uncut.2
  have fits' := Nat.le_trans fits atMost
  rw [extend, extend, fill_eq_take, fill_eq_take, List.take_of_length_le fits,
    List.take_of_length_le fits', decide_eq_false (Nat.not_lt.mpr fits),
    decide_eq_false (Nat.not_lt.mpr fits')]

theorem foldl_extend_of_le (atMost : limit ≤ limit')
    (uncut : (operands.foldl (extend limit joiner) front).truncated = false) :
    operands.foldl (extend limit' joiner) front = operands.foldl (extend limit joiner) front := by
  induction operands generalizing front with
  | nil => rfl
  | cons operand operands ih =>
    rw [List.foldl_cons] at uncut
    rw [List.foldl_cons, List.foldl_cons, extend_of_le atMost (truncated_of_foldl uncut)]
    exact ih uncut

/-- A product that is not cut off is the same with more room. -/
theorem product_of_le (atMost : limit ≤ limit')
    (uncut : (product limit joiner operands).truncated = false) :
    product limit' joiner operands = product limit joiner operands :=
  foldl_extend_of_le atMost uncut

theorem length_foldl_extend_le (within : front.pieces.length ≤ limit) :
    (operands.foldl (extend limit joiner) front).pieces.length ≤ limit := by
  induction operands generalizing front with
  | nil => exact within
  | cons operand operands ih => exact ih (length_extend_le limit joiner front operand)

theorem length_product_le (room : 1 ≤ limit) (joiner : Option Separator)
    (operands : List (List Piece)) : (product limit joiner operands).pieces.length ≤ limit :=
  length_foldl_extend_le room

end Alternatives

/-! ### Gatherings -/

/-- Putting a list in order of size only rearranges it. -/
theorem bySize_perm {α : Type} (size : α → Nat) (xs : List α) : (bySize size xs).Perm xs := by
  -- The sizes below a bound pick out the elements that are smaller than the bound.
  have below (bound : Nat) : ((List.range bound).flatMap fun n => xs.filter (size · == n)).Perm
      (xs.filter (size · < bound)) := by
    induction bound with
    | zero => simp
    | succ bound ih =>
      rw [List.range_succ, List.flatMap_append, List.flatMap_singleton]
      refine (ih.append_right _).trans ?_
      have smaller : (xs.filter (size · < bound + 1)).filter (size · < bound) =
          xs.filter (size · < bound) := by
        rw [List.filter_filter]
        refine List.filter_congr fun x _ => ?_
        rw [← Bool.decide_and, decide_eq_decide]
        omega
      have equal : (xs.filter (size · < bound + 1)).filter (fun x => !decide (size x < bound)) =
          xs.filter (size · == bound) := by
        rw [List.filter_filter]
        refine List.filter_congr fun x _ => ?_
        rw [← decide_not, ← Bool.decide_and, beq_eq_decide, decide_eq_decide]
        omega
      have parts := List.filter_append_perm (size · < bound) (xs.filter (size · < bound + 1))
      rw [smaller, equal] at parts
      exact parts
  have all : xs.filter (size · < greatestSize size xs + 1) = xs := by
    rw [List.filter_eq_self]
    intro x member
    simpa [Nat.lt_succ_iff] using size_le_greatestSize member
  have bounded := below (greatestSize size xs + 1)
  rw [all] at bounded
  exact bounded

namespace Gathering

variable {gathering : Gathering} {piece : Piece}

theorem insert_of_le (atMost : limit ≤ limit')
    (uncut : (gathering.insert limit piece).overflowed = false) :
    gathering.insert limit' piece = gathering.insert limit piece := by
  unfold insert at uncut ⊢
  dsimp only at uncut ⊢
  split
  · rfl
  · next new =>
    rw [if_neg new] at uncut
    split at uncut
    · cases uncut
    · next room =>
      rw [if_neg room, if_neg fun full => room (Nat.le_trans atMost full)]

theorem insertAll_of_le (atMost : limit ≤ limit') {pieces : List Piece}
    (uncut : (gathering.insertAll limit pieces).overflowed = false) :
    gathering.insertAll limit' pieces = gathering.insertAll limit pieces := by
  induction pieces generalizing gathering with
  | nil => rfl
  | cons piece rest ih =>
    simp only [insertAll] at uncut ⊢
    split at uncut
    · next full =>
      rw [full] at uncut
      cases uncut
    · next room =>
      rw [insert_of_le atMost (by simpa using room), if_neg room, if_neg room]
      exact ih uncut

/-- A gathering without overflow is the same with more room, if its batches are. -/
theorem collect_of_le {α : Type} {batch batch' : α → Alternatives} (atMost : limit ≤ limit')
    {sources : List α} (same : ∀ source ∈ sources, batch' source = batch source)
    (uncut : (gathering.collect limit batch sources).overflowed = false) :
    gathering.collect limit' batch' sources = gathering.collect limit batch sources := by
  induction sources generalizing gathering with
  | nil => rfl
  | cons source rest ih =>
    simp only [collect] at uncut ⊢
    split at uncut
    · next full =>
      rw [full] at uncut
      cases uncut
    · next room =>
      have here : gathering.absorb limit' (batch' source) =
          gathering.absorb limit (batch source) := by
        rw [same source List.mem_cons_self]
        exact insertAll_of_le atMost (by simpa [absorb] using room)
      rw [here, if_neg room, if_neg room]
      exact ih (fun other member => same other (List.mem_cons_of_mem _ member)) uncut

/-- What is gathered without cuts is the same with more room, if that is true of its batches. -/
theorem collect_of_uncut {α : Type} {batch batch' : α → Alternatives} (atMost : limit ≤ limit')
    {sources : List α}
    (same : ∀ source, (batch source).truncated = false → batch' source = batch source)
    (uncut : (gathering.collect limit batch sources).truncated = false) :
    gathering.collect limit' batch' sources = gathering.collect limit batch sources := by
  have whole := (uncut_of_collect uncut).2
  rw [truncated, Bool.or_eq_false_iff] at uncut
  exact collect_of_le atMost (fun source member => same source (whole source member)) uncut.1

/-- As many texts have been seen as pieces kept, and no more than the limit allows. -/
structure Within (limit : Nat) (gathering : Gathering) : Prop where
  size : gathering.seen.size = gathering.kept.length
  room : gathering.kept.length ≤ limit

theorem within_empty (limit : Nat) : Within limit empty := by
  constructor
  · rfl
  · exact Nat.zero_le limit

theorem Within.insert (within : Within limit gathering) (piece : Piece) :
    Within limit (gathering.insert limit piece) := by
  unfold Gathering.insert
  dsimp only
  split
  · exact within
  · next new =>
    split
    · exact ⟨within.size, within.room⟩
    · next room =>
      constructor
      · rw [Std.TreeSet.size_insert, if_neg new, within.size]
        rfl
      · rw [within.size] at room
        exact Nat.lt_of_not_le room

theorem Within.insertAll (within : Within limit gathering) (pieces : List Piece) :
    Within limit (gathering.insertAll limit pieces) := by
  induction pieces generalizing gathering with
  | nil => exact within
  | cons piece rest ih =>
    simp only [Gathering.insertAll]
    split
    · exact within.insert piece
    · exact ih (within.insert piece)

theorem Within.collect {α : Type} {batch : α → Alternatives} (within : Within limit gathering)
    (sources : List α) : Within limit (gathering.collect limit batch sources) := by
  induction sources generalizing gathering with
  | nil => exact within
  | cons source rest ih =>
    have noted : Within limit { gathering with cut := gathering.cut || (batch source).truncated } :=
      ⟨within.size, within.room⟩
    have next : Within limit (gathering.absorb limit (batch source)) :=
      noted.insertAll (batch source).pieces
    simp only [Gathering.collect]
    split
    · exact next
    · exact ih next

theorem Within.length_inOrder (within : Within limit gathering) :
    gathering.inOrder.pieces.length ≤ limit := by
  rw [inOrder, List.length_map, List.length_reverse]
  exact within.room

theorem Within.length_byLength (within : Within limit gathering) :
    gathering.byLength.pieces.length ≤ limit := by
  rw [byLength, List.length_map, (bySize_perm _ _).length_eq, List.length_map, List.length_reverse]
  exact within.room

end Gathering

end ValueGrammar
