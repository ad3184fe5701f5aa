import Mathlib.Data.List.Basic
import ValueGrammar.Piece.Gather

/-!
Gathered pieces. Gathering keeps the first piece of each text, in the order in which the pieces
are met, up to the limit; unless something is cut off, every text met has its piece.
-/
namespace ValueGrammar

namespace Piece

/-- The pieces of which no earlier one has the same text, apart from those with a text `seen`. -/
def distinct (seen : List String) : List Piece → List Piece
  | [] => []
  | piece :: rest =>
    if piece.text ∈ seen then distinct seen rest else piece :: distinct (piece.text :: seen) rest

theorem of_mem_distinct {seen : List String} {pieces : List Piece} {piece : Piece}
    (member : piece ∈ distinct seen pieces) : piece ∈ pieces := by
  induction pieces generalizing seen with
  | nil => exact member
  | cons first rest ih =>
    unfold distinct at member
    split at member
    · exact List.mem_cons_of_mem _ (ih member)
    · rcases List.mem_cons.mp member with rfl | later
      · exact List.mem_cons_self
      · exact List.mem_cons_of_mem _ (ih later)

/-- Every text met has its piece. -/
theorem exists_mem_distinct {seen : List String} {pieces : List Piece} {piece : Piece}
    (member : piece ∈ pieces) (unseen : piece.text ∉ seen) :
    ∃ kept ∈ distinct seen pieces, kept.text = piece.text := by
  induction pieces generalizing seen with
  | nil => cases member
  | cons first rest ih =>
    unfold distinct
    by_cases known : first.text ∈ seen
    · rw [if_pos known]
      rcases List.mem_cons.mp member with rfl | later
      · exact absurd known unseen
      · exact ih later unseen
    · rw [if_neg known]
      by_cases same : piece.text = first.text
      · exact ⟨first, List.mem_cons_self, same.symm⟩
      · rcases List.mem_cons.mp member with rfl | later
        · exact absurd rfl same
        · have still : piece.text ∉ first.text :: seen := by simp [same, unseen]
          obtain ⟨kept, inside, eq⟩ := ih later still
          exact ⟨kept, List.mem_cons_of_mem _ inside, eq⟩

theorem distinct_append (seen : List String) (front back : List Piece) :
    distinct seen (front ++ back) =
      distinct seen front ++ distinct ((distinct seen front).reverse.map text ++ seen) back := by
  induction front generalizing seen with
  | nil => rfl
  | cons piece rest ih =>
    simp only [List.cons_append, distinct]
    split
    · exact ih seen
    · rw [ih]
      simp

end Piece

namespace Gathering

/-- Which texts have been seen is read off the pieces kept. -/
structure Consistent (gathering : Gathering) : Prop where
  seen : ∀ text, text ∈ gathering.seen ↔ text ∈ gathering.kept.map (·.1)
  own : ∀ entry ∈ gathering.kept, entry.1 = entry.2.text

/-- The pieces kept, the first one met first. -/
def pieces (gathering : Gathering) : List Piece :=
  gathering.kept.reverse.map (·.2)

/-- The texts of the pieces kept, the newest first. -/
def texts (gathering : Gathering) : List String :=
  gathering.kept.map (·.1)

theorem consistent_empty : Consistent empty := by
  constructor
  · intro text
    simp [empty]
  · intro entry member
    cases member

theorem Consistent.texts_eq {gathering : Gathering} (consistent : Consistent gathering) :
    gathering.texts = gathering.pieces.reverse.map Piece.text := by
  simp only [texts, pieces, ← List.map_reverse, List.reverse_reverse, List.map_map]
  exact List.map_congr_left consistent.own

variable {limit : Nat} {gathering : Gathering}

/-- A step of gathering leads to `next`, which has the pieces of `gathering` and of `batch`
without those whose text has been met; when the room ends they are only the first ones. -/
structure Gathers (gathering : Gathering) (batch : List Piece) (next : Gathering) : Prop where
  consistent : Consistent next
  part : next.pieces <+: gathering.pieces ++ Piece.distinct gathering.texts batch
  whole : next.overflowed = false →
    next.pieces = gathering.pieces ++ Piece.distinct gathering.texts batch

theorem gathers_insert (limit : Nat) (consistent : Consistent gathering) (piece : Piece) :
    Gathers gathering [piece] (gathering.insert limit piece) := by
  have known : gathering.seen.contains piece.text = true ↔ piece.text ∈ gathering.texts := by
    rw [Std.TreeSet.contains_iff_mem]
    exact consistent.seen piece.text
  unfold insert
  dsimp only
  by_cases met : piece.text ∈ gathering.texts
  · rw [if_pos (known.mpr met)]
    have nothing : Piece.distinct gathering.texts [piece] = [] := by simp [Piece.distinct, met]
    refine ⟨consistent, List.prefix_append _ _, fun _ => ?_⟩
    rw [nothing, List.append_nil]
  · rw [if_neg fun seen => met (known.mp seen)]
    have one : Piece.distinct gathering.texts [piece] = [piece] := by simp [Piece.distinct, met]
    split
    · refine ⟨⟨consistent.seen, consistent.own⟩, List.prefix_append _ _, ?_⟩
      intro uncut
      cases uncut
    · refine ⟨⟨?_, ?_⟩, ?_, fun _ => ?_⟩
      · intro text
        simp only [Std.TreeSet.mem_insert, consistent.seen text, List.map_cons, List.mem_cons]
        rw [Std.LawfulEqCmp.compare_eq_iff_eq, eq_comm]
      · intro entry member
        rcases List.mem_cons.mp member with rfl | later
        · rfl
        · exact consistent.own entry later
      · rw [one]
        simp [pieces]
      · rw [one]
        simp [pieces]

theorem Gathers.trans {middle next : Gathering} {front back : List Piece}
    (consistent : Consistent gathering) (first : Gathers gathering front middle)
    (room : middle.overflowed = false) (second : Gathers middle back next) :
    Gathers gathering (front ++ back) next := by
  have between := first.whole room
  have all : gathering.pieces ++ Piece.distinct gathering.texts (front ++ back) =
      middle.pieces ++ Piece.distinct middle.texts back := by
    rw [Piece.distinct_append, ← List.append_assoc, ← between, first.consistent.texts_eq, between,
      List.reverse_append, List.map_append, ← consistent.texts_eq]
  constructor
  · exact second.consistent
  · rw [all]
    exact second.part
  · intro uncut
    rw [all]
    exact second.whole uncut

/-- Once there is no room for a piece, those behind it are left out. -/
theorem Gathers.stop {next : Gathering} {front : List Piece}
    (first : Gathers gathering front next) (full : next.overflowed = true) (back : List Piece) :
    Gathers gathering (front ++ back) next := by
  constructor
  · exact first.consistent
  · rw [Piece.distinct_append, ← List.append_assoc]
    exact first.part.trans (List.prefix_append _ _)
  · intro uncut
    rw [full] at uncut
    cases uncut

theorem gathers_insertAll (limit : Nat) (consistent : Consistent gathering) (batch : List Piece) :
    Gathers gathering batch (gathering.insertAll limit batch) := by
  induction batch generalizing gathering with
  | nil =>
    refine ⟨consistent, ?_, fun _ => ?_⟩
    · simp [insertAll, Piece.distinct]
    · simp [insertAll, Piece.distinct]
  | cons piece rest ih =>
    have first := gathers_insert limit consistent piece
    simp only [insertAll]
    by_cases full : (gathering.insert limit piece).overflowed = true
    · rw [if_pos full]
      exact first.stop full rest
    · rw [if_neg full]
      have still : (gathering.insert limit piece).overflowed = false := by simpa using full
      exact first.trans consistent still (ih first.consistent)

theorem gathers_collect {α : Type} (limit : Nat) (batch : α → Alternatives)
    (consistent : Consistent gathering) (sources : List α) :
    Gathers gathering (sources.flatMap fun source => (batch source).pieces)
      (gathering.collect limit batch sources) := by
  induction sources generalizing gathering with
  | nil => exact gathers_insertAll 0 consistent []
  | cons source rest ih =>
    have first : Gathers gathering (batch source).pieces (gathering.absorb limit (batch source)) := by
      let noted : Gathering := { gathering with cut := gathering.cut || (batch source).truncated }
      have same : Consistent noted := ⟨consistent.seen, consistent.own⟩
      have all := gathers_insertAll limit same (batch source).pieces
      exact ⟨all.consistent, all.part, all.whole⟩
    simp only [collect, List.flatMap_cons]
    by_cases full : (gathering.absorb limit (batch source)).overflowed = true
    · rw [if_pos full]
      exact first.stop full _
    · rw [if_neg full]
      have still : (gathering.absorb limit (batch source)).overflowed = false := by simpa using full
      exact first.trans consistent still (ih first.consistent)

theorem cut_insertAll (batch : List Piece) :
    (gathering.insertAll limit batch).cut = gathering.cut := by
  induction batch generalizing gathering with
  | nil => rfl
  | cons piece rest ih =>
    have here : (gathering.insert limit piece).cut = gathering.cut := by
      unfold insert
      dsimp only
      split
      · rfl
      · split <;> rfl
    simp only [insertAll]
    split
    · exact here
    · rw [ih, here]

/-- A gathering without cuts had no batch that was cut off. -/
theorem uncut_of_collect {α : Type} {batch : α → Alternatives} {sources : List α}
    (uncut : (gathering.collect limit batch sources).truncated = false) :
    gathering.cut = false ∧ ∀ source ∈ sources, (batch source).truncated = false := by
  induction sources generalizing gathering with
  | nil =>
    simp only [collect, truncated, Bool.or_eq_false_iff] at uncut
    exact ⟨uncut.2, fun source member => by cases member⟩
  | cons source rest ih =>
    have noted : (gathering.absorb limit (batch source)).cut =
        (gathering.cut || (batch source).truncated) := cut_insertAll (batch source).pieces
    simp only [collect] at uncut
    split at uncut
    · next full =>
      simp only [truncated, full, Bool.true_or] at uncut
      cases uncut
    · obtain ⟨uncutHere, others⟩ := ih uncut
      rw [noted, Bool.or_eq_false_iff] at uncutHere
      refine ⟨uncutHere.1, fun other member => ?_⟩
      rcases List.mem_cons.mp member with rfl | later
      · exact uncutHere.2
      · exact others other later

/-! ### Gathering from nothing -/

section Collected

variable {α : Type} {batch : α → Alternatives} {sources : List α} {piece : Piece}

theorem of_mem_collect
    (member : piece ∈ (empty.collect limit batch sources).pieces) :
    ∃ source ∈ sources, piece ∈ (batch source).pieces := by
  have gathers := gathers_collect limit batch consistent_empty sources
  have inside := Piece.of_mem_distinct (gathers.part.subset member)
  exact List.mem_flatMap.mp inside

/-- Unless something is cut off, exactly the first piece of each text is kept. -/
theorem pieces_collect (uncut : (empty.collect limit batch sources).truncated = false) :
    (empty.collect limit batch sources).pieces =
      Piece.distinct [] (sources.flatMap fun source => (batch source).pieces) := by
  have gathers := gathers_collect limit batch consistent_empty sources
  simp only [truncated, Bool.or_eq_false_iff] at uncut
  exact gathers.whole uncut.1

theorem pieces_inOrder (gathered : Gathering) : gathered.inOrder.pieces = gathered.pieces := rfl

theorem mem_byLength {gathered : Gathering} :
    piece ∈ gathered.byLength.pieces ↔ piece ∈ gathered.pieces := by
  simp only [byLength, pieces, List.mem_map, mem_bySize]
  constructor
  · intro given
    obtain ⟨-, ⟨entry, member, rfl⟩, rfl⟩ := given
    exact ⟨entry, member, rfl⟩
  · intro given
    obtain ⟨entry, member, rfl⟩ := given
    exact ⟨_, ⟨entry, member, rfl⟩, rfl⟩

end Collected

end Gathering

end ValueGrammar
