import ValueGrammar.Proofs.Piece.Ordering

/-!
Gatherings that run full. A piece has no room only when as many pieces have been kept as the limit
allows, so a gathering that overflows holds the first pieces of each text up to the limit. What is made
of the pieces, piece by piece, may be made before duplicates are left out, and before sizes are put in
order.
-/
namespace ValueGrammar

/-! ### Overflow -/

namespace Gathering

variable {limit : Nat} {gathering : Gathering}

/-- A piece has had no room only if as many have been kept as the limit allows. -/
def Full (limit : Nat) (gathering : Gathering) : Prop :=
  gathering.overflowed = true → gathering.kept.length = limit

theorem Full.insert (full : Full limit gathering) (within : Within limit gathering) (piece : Piece) :
    Full limit (gathering.insert limit piece) := by
  unfold Gathering.insert
  dsimp only
  split
  · exact full
  · split
    · next noRoom =>
      rw [within.size] at noRoom
      exact fun _ => Nat.le_antisymm within.room noRoom
    · next room =>
      intro overflowed
      rw [within.size, full overflowed] at room
      exact absurd (Nat.le_refl limit) room

theorem Full.insertAll (full : Full limit gathering) (within : Within limit gathering)
    (pieces : List Piece) : Full limit (gathering.insertAll limit pieces) := by
  induction pieces generalizing gathering with
  | nil => exact full
  | cons piece rest ih =>
    simp only [Gathering.insertAll]
    split
    · exact full.insert within piece
    · exact ih (full.insert within piece) (within.insert piece)

theorem Full.collect {α : Type} {batch : α → Alternatives} (full : Full limit gathering)
    (within : Within limit gathering) (sources : List α) :
    Full limit (gathering.collect limit batch sources) := by
  induction sources generalizing gathering with
  | nil => exact full
  | cons source rest ih =>
    let noted : Gathering := { gathering with cut := gathering.cut || (batch source).truncated }
    have withinNoted : Within limit noted := ⟨within.size, within.room⟩
    have fullNoted : Full limit noted := full
    have next : Full limit (gathering.absorb limit (batch source)) :=
      fullNoted.insertAll withinNoted (batch source).pieces
    simp only [Gathering.collect]
    split
    · exact next
    · exact ih next (withinNoted.insertAll (batch source).pieces)

/-- A gathering of batches that are whole is cut only by its own limit. -/
theorem cut_collect {α : Type} {batch : α → Alternatives} {sources : List α}
    (whole : ∀ source ∈ sources, (batch source).truncated = false) :
    (gathering.collect limit batch sources).cut = gathering.cut := by
  induction sources generalizing gathering with
  | nil => rfl
  | cons source rest ih =>
    have here : (gathering.absorb limit (batch source)).cut = gathering.cut := by
      rw [absorb, cut_insertAll, whole source List.mem_cons_self, Bool.or_false]
    simp only [collect]
    split
    · exact here
    · rw [ih fun other member => whole other (List.mem_cons_of_mem _ member), here]

/-- A gathering of whole batches in which something is missing holds as many first pieces as the limit
allows, in order of length. -/
theorem exists_pieces_byLength_of_truncated {α : Type} {batch : α → Alternatives} {sources : List α}
    (whole : ∀ source ∈ sources, (batch source).truncated = false)
    (truncated : (empty.collect limit batch sources).truncated = true) :
    ∃ kept, kept <+: Piece.distinct [] (sources.flatMap fun source => (batch source).pieces) ∧
      kept.length = limit ∧
      (empty.collect limit batch sources).byLength.pieces =
        bySize (fun piece => piece.text.length) kept := by
  have gathers := gathers_collect limit batch consistent_empty sources
  have overflowed : (empty.collect limit batch sources).overflowed = true := by
    rw [Gathering.truncated, cut_collect whole] at truncated
    simpa [empty] using truncated
  have begun : Full limit empty := fun overflowed => by cases overflowed
  have full : Full limit (empty.collect limit batch sources) :=
    begun.collect (within_empty limit) sources
  refine ⟨_, gathers.part, ?_, pieces_byLength gathers.consistent⟩
  rw [pieces, List.length_map, List.length_reverse, full overflowed]

end Gathering

/-! ### What is made of pieces -/

section Made

variable {α β : Type} {f : α → Option β} {size : α → Nat} {size' : β → Nat} {xs : List α}

/-- Sizes may be tried beyond the greatest one. -/
theorem flatMap_filter_eq_bySize {bound : Nat} (atLeast : greatestSize size xs ≤ bound) :
    ((List.range (bound + 1)).flatMap fun n => xs.filter (size · == n)) = bySize size xs := by
  obtain ⟨extra, rfl⟩ := Nat.exists_eq_add_of_le atLeast
  have beyond : ((List.range extra).map (greatestSize size xs + 1 + ·)).flatMap
      (fun n => xs.filter (size · == n)) = [] := by
    rw [List.flatMap_eq_nil_iff]
    intro n greater
    obtain ⟨m, -, rfl⟩ := List.mem_map.mp greater
    rw [List.filter_eq_nil_iff]
    intro x member
    have atMost : size x ≤ greatestSize size xs := size_le_greatestSize member
    simp only [beq_iff_eq]
    omega
  rw [bySize, Nat.add_right_comm, List.range_add, List.flatMap_append, beyond, List.append_nil]

/-- What is made of elements, with a size of its own, stands in their order of size. -/
theorem filterMap_bySize (same : ∀ x ∈ xs, ∀ y, f x = some y → size' y = size x) :
    (bySize size xs).filterMap f = bySize size' (xs.filterMap f) := by
  have smaller : greatestSize size' (xs.filterMap f) ≤ greatestSize size xs := by
    refine greatestSize_le fun y made => ?_
    obtain ⟨x, member, eq⟩ := List.mem_filterMap.mp made
    rw [same x member y eq]
    exact size_le_greatestSize member
  rw [← flatMap_filter_eq_bySize smaller, bySize, List.filterMap_flatMap]
  refine List.flatMap_congr fun n _ => ?_
  rw [List.filterMap_filter, List.filter_filterMap]
  refine List.filterMap_congr fun x member => ?_
  cases made : f x with
  | none => simp
  | some y =>
    rw [Option.filter_some, same x member y made]

/-- If nothing is made of one element at most, hardly any room is lost. -/
theorem length_le_filterMap (atMostOne : xs.Pairwise fun x y => ¬ (f x = none ∧ f y = none)) :
    xs.length ≤ (xs.filterMap f).length + 1 := by
  induction xs with
  | nil => exact Nat.zero_le _
  | cons x xs ih =>
    obtain ⟨others, behind⟩ := List.pairwise_cons.mp atMostOne
    cases made : f x with
    | none =>
      have all : (xs.filterMap f).length = xs.length := by
        rw [List.length_filterMap_eq_countP, List.countP_eq_length]
        intro y member
        rw [Option.isSome_iff_ne_none]
        exact fun none => others y member ⟨made, none⟩
      rw [List.filterMap_cons_none made, all]
      exact Nat.le_refl _
    | some y =>
      rw [List.filterMap_cons_some made, List.length_cons, List.length_cons]
      exact Nat.succ_le_succ (ih behind)

end Made

namespace Piece

variable {seen : List String} {pieces : List Piece}

theorem text_not_mem_of_mem_distinct {piece : Piece} (member : piece ∈ distinct seen pieces) :
    piece.text ∉ seen := by
  obtain ⟨firsts, -, same, each⟩ := exists_distinct_map id pieces seen
  rw [List.map_id, List.map_id] at same
  rw [same] at member
  exact (each piece member).1

/-- No two pieces that are kept have one text. -/
theorem pairwise_distinct (seen : List String) (pieces : List Piece) :
    (distinct seen pieces).Pairwise fun first second => first.text ≠ second.text := by
  induction pieces generalizing seen with
  | nil => exact .nil
  | cons piece rest ih =>
    by_cases known : piece.text ∈ seen
    · rw [distinct_cons_of_mem known]
      exact ih seen
    · rw [distinct_cons_of_not_mem known]
      refine List.pairwise_cons.mpr ⟨fun other member same => ?_, ih _⟩
      exact text_not_mem_of_mem_distinct member (List.mem_cons.mpr (Or.inl same.symm))

variable {α : Type} {f : Piece → Option α}

/-- What is made of pieces says as much as their texts do. -/
structure MadeByText (f : Piece → Option α) (pieces : List Piece) : Prop where
  same : ∀ first ∈ pieces, ∀ second ∈ pieces, first.text = second.text → f first = f second
  apart : ∀ first ∈ pieces, ∀ second ∈ pieces, ∀ made, f first = some made → f second = some made →
    first.text = second.text

theorem MadeByText.mono {fewer : List Piece} (byText : MadeByText f pieces) (subset : fewer ⊆ pieces) :
    MadeByText f fewer := by
  constructor
  · exact fun first member second member' =>
      byText.same first (subset member) second (subset member')
  · exact fun first member second member' =>
      byText.apart first (subset member) second (subset member')

/-- Duplicates may be left out before or after something is made of the pieces. -/
theorem filterMap_distinct_visited [BEq α] [LawfulBEq α] (visited : List Piece)
    (byText : MadeByText f (visited ++ pieces)) :
    (distinct (visited.map text) pieces).filterMap f =
      ((pieces.filterMap f).removeAll (visited.filterMap f)).eraseDups := by
  induction pieces generalizing visited with
  | nil => rfl
  | cons piece rest ih =>
    have here : piece ∈ visited ++ piece :: rest := by simp
    by_cases known : piece.text ∈ visited.map text
    · obtain ⟨earlier, member, sameText⟩ := List.mem_map.mp known
      have sameMade := byText.same earlier (List.mem_append_left _ member) piece here sameText
      have later := ih visited (byText.mono (by simp))
      rw [distinct_cons_of_mem known, later]
      cases made : f piece with
      | none => rw [List.filterMap_cons_none made]
      | some a =>
        have met : a ∈ visited.filterMap f :=
          List.mem_filterMap.mpr ⟨earlier, member, sameMade.trans made⟩
        rw [List.filterMap_cons_some made, List.cons_removeAll]
        simp [met]
    · have later := ih (piece :: visited) (byText.mono (by simp))
      rw [List.map_cons] at later
      rw [distinct_cons_of_not_mem known]
      cases made : f piece with
      | none =>
        rw [List.filterMap_cons_none made, later, List.filterMap_cons_none made,
          List.filterMap_cons_none made]
      | some a =>
        have fresh : a ∉ visited.filterMap f := by
          intro met
          obtain ⟨earlier, member, made'⟩ := List.mem_filterMap.mp met
          exact known (List.mem_map.mpr
            ⟨earlier, member, byText.apart _ (List.mem_append_left _ member) _ here a made' made⟩)
        rw [List.filterMap_cons_some made, later, List.filterMap_cons_some made,
          List.filterMap_cons_some made, List.cons_removeAll, List.removeAll_cons]
        simp [fresh, List.eraseDups_cons, List.removeAll, List.filter_filter, Bool.and_comm]

theorem filterMap_distinct [BEq α] [LawfulBEq α] (byText : MadeByText f pieces) :
    (distinct [] pieces).filterMap f = (pieces.filterMap f).eraseDups := by
  have all := filterMap_distinct_visited [] byText
  rw [List.filterMap_nil, List.removeAll_nil] at all
  exact all

end Piece

end ValueGrammar
