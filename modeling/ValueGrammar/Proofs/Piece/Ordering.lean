import ValueGrammar.Proofs.Piece.Room
import ValueGrammar.Proofs.Pointwise

/-!
The order of gathered pieces. Putting a list in order of size keeps the elements of each size in their
order, and that determines the result. Leaving out pieces for their texts and picking those of one
length may therefore change places, and what has been gathered and put in order may be gathered again
with other pieces around it.
-/
namespace ValueGrammar

/-! ### Order of size -/

section BySize

variable {α : Type} {size : α → Nat} {xs ys : List α}

theorem greatestSize_le {bound : Nat} (atMost : ∀ x ∈ xs, size x ≤ bound) :
    greatestSize size xs ≤ bound := by
  have fold (start : Nat) (low : start ≤ bound) :
      xs.foldl (fun greatest x => max greatest (size x)) start ≤ bound := by
    induction xs generalizing start with
    | nil => exact low
    | cons x xs ih =>
      exact ih (fun y later => atMost y (List.mem_cons_of_mem x later)) _
        (Nat.max_le.mpr ⟨low, atMost x List.mem_cons_self⟩)
  exact fold 0 (Nat.zero_le bound)

/-- The elements of one size keep their order. -/
theorem filter_bySize (size : α → Nat) (xs : List α) (n : Nat) :
    (bySize size xs).filter (size · == n) = xs.filter (size · == n) := by
  have upTo (bound : Nat) :
      ((List.range bound).flatMap fun m => xs.filter (size · == m)).filter (size · == n) =
        if n < bound then xs.filter (size · == n) else [] := by
    induction bound with
    | zero => rfl
    | succ bound ih =>
      rw [List.range_succ, List.flatMap_append, List.filter_append, ih, List.flatMap_singleton,
        List.filter_filter]
      by_cases last : n = bound
      · subst last
        simp
      · have none : xs.filter (fun x => size x == n && size x == bound) = [] := by
          rw [List.filter_eq_nil_iff]
          intro x _
          simp only [Bool.and_eq_true, beq_iff_eq]
          omega
        rw [none, List.append_nil]
        refine if_congr ?_ rfl rfl
        omega
  rw [bySize, upTo]
  split
  · rfl
  · next beyond =>
    rw [eq_comm, List.filter_eq_nil_iff]
    intro x member
    have atMost : size x ≤ greatestSize size xs := size_le_greatestSize member
    simp only [beq_iff_eq]
    omega

/-- The order of the elements of each size determines the whole. -/
theorem bySize_congr (same : ∀ n, xs.filter (size · == n) = ys.filter (size · == n)) :
    bySize size xs = bySize size ys := by
  have greatest {xs ys : List α} (same : ∀ n, xs.filter (size · == n) = ys.filter (size · == n)) :
      greatestSize size xs ≤ greatestSize size ys := by
    refine greatestSize_le fun x member => size_le_greatestSize ?_
    have inside : x ∈ xs.filter (size · == size x) := List.mem_filter.mpr ⟨member, by simp⟩
    rw [same] at inside
    exact (List.mem_filter.mp inside).1
  have bounds := Nat.le_antisymm (greatest same) (greatest fun n => (same n).symm)
  rw [bySize, bySize, bounds]
  exact List.flatMap_congr fun n _ => same n

/-- Elements are in order of size, and those of one size in the order in which they were. -/
theorem pairwise_bySize {R : α → α → Prop} (ordered : xs.Pairwise R) :
    (bySize size xs).Pairwise fun x y => size x < size y ∨ size x = size y ∧ R x y := by
  rw [bySize, List.pairwise_flatMap]
  constructor
  · intro n _
    refine (ordered.filter _).imp_of_mem ?_
    intro x y ofX ofY related
    simp only [List.mem_filter, beq_iff_eq] at ofX ofY
    exact Or.inr ⟨ofX.2.trans ofY.2.symm, related⟩
  · refine List.pairwise_lt_range.imp ?_
    intro n m less x ofN y ofM
    simp only [List.mem_filter, beq_iff_eq] at ofN ofM
    exact Or.inl (by omega)

theorem bySize_map {β : Type} (f : β → α) (size : α → Nat) (xs : List β) :
    bySize size (xs.map f) = (bySize (fun x => size (f x)) xs).map f := by
  have greatest : greatestSize size (xs.map f) = greatestSize (fun x => size (f x)) xs :=
    List.foldl_map
  simp only [bySize, greatest, List.filter_map, List.map_flatMap, Function.comp_def]

theorem bySize_congr_size {size' : α → Nat} (same : ∀ x ∈ xs, size x = size' x) :
    bySize size xs = bySize size' xs := by
  have greatest : greatestSize size xs = greatestSize size' xs := by
    apply Nat.le_antisymm
    · exact greatestSize_le fun x member => same x member ▸ size_le_greatestSize member
    · exact greatestSize_le fun x member => same x member ▸ size_le_greatestSize member
  rw [bySize, bySize, greatest]
  refine List.flatMap_congr fun n _ => List.filter_congr fun x member => ?_
  rw [same x member]

end BySize

/-! ### Pieces without duplicates -/

namespace Piece

variable {seen seen' : List String} {pieces front back : List Piece} {p : Piece → Bool}

theorem distinct_cons_of_mem {piece : Piece} (known : piece.text ∈ seen) (pieces : List Piece) :
    distinct seen (piece :: pieces) = distinct seen pieces :=
  if_pos known

theorem distinct_cons_of_not_mem {piece : Piece} (new : piece.text ∉ seen) (pieces : List Piece) :
    distinct seen (piece :: pieces) = piece :: distinct (piece.text :: seen) pieces :=
  if_neg new

/-- Only the texts of the pieces themselves matter among those seen. -/
theorem distinct_congr (same : ∀ piece ∈ pieces, piece.text ∈ seen ↔ piece.text ∈ seen') :
    distinct seen pieces = distinct seen' pieces := by
  induction pieces generalizing seen seen' with
  | nil => rfl
  | cons piece rest ih =>
    have here := same piece List.mem_cons_self
    have later : ∀ other ∈ rest, other.text ∈ seen ↔ other.text ∈ seen' := fun other member =>
      same other (List.mem_cons_of_mem _ member)
    have further : ∀ other ∈ rest,
        other.text ∈ piece.text :: seen ↔ other.text ∈ piece.text :: seen' := fun other member => by
      rw [List.mem_cons, List.mem_cons, later other member]
    simp only [distinct, here, ih later, ih further]

/-- Leaving out pieces for their texts and picking pieces by their texts may change places. -/
theorem filter_distinct (byText : ∀ first second, text first = text second → p first = p second)
    (seen : List String) (pieces : List Piece) :
    (distinct seen pieces).filter p = distinct seen (pieces.filter p) := by
  induction pieces generalizing seen with
  | nil => rfl
  | cons piece rest ih =>
    by_cases known : piece.text ∈ seen
    · rw [distinct_cons_of_mem known, ih]
      cases picked : p piece with
      | true => rw [List.filter_cons_of_pos picked, distinct_cons_of_mem known]
      | false => rw [List.filter_cons_of_neg (by simp [picked])]
    · rw [distinct_cons_of_not_mem known]
      cases picked : p piece with
      | true =>
        rw [List.filter_cons_of_pos picked, List.filter_cons_of_pos picked, ih,
          distinct_cons_of_not_mem known]
      -- The text of a piece passed over has been met, but no piece that is picked has it.
      | false =>
        have passedOver : ¬ p piece = true := by simp [picked]
        rw [List.filter_cons_of_neg passedOver, List.filter_cons_of_neg passedOver, ih]
        apply distinct_congr
        intro other member
        have different : other.text ≠ piece.text := by
          intro same
          rw [← byText other piece same] at picked
          simp [picked] at member
        simp [different]

/-- Pieces in front of others may be left out for their texts first. -/
theorem distinct_distinct_append (subset : seen' ⊆ seen) (pieces back : List Piece) :
    distinct seen (distinct seen' pieces ++ back) = distinct seen (pieces ++ back) := by
  induction pieces generalizing seen seen' with
  | nil => rfl
  | cons piece rest ih =>
    rw [List.cons_append]
    by_cases known' : piece.text ∈ seen'
    · rw [distinct_cons_of_mem known', ih subset, distinct_cons_of_mem (subset known')]
    · rw [distinct_cons_of_not_mem known', List.cons_append]
      by_cases known : piece.text ∈ seen
      · have added : piece.text :: seen' ⊆ seen := List.cons_subset.mpr ⟨known, subset⟩
        rw [distinct_cons_of_mem known, ih added, distinct_cons_of_mem known]
      · have both : piece.text :: seen' ⊆ piece.text :: seen := List.cons_subset_cons _ subset
        rw [distinct_cons_of_not_mem known, ih both, distinct_cons_of_not_mem known]

theorem distinct_middle (front middle back : List Piece) :
    distinct seen (front ++ distinct [] middle ++ back) = distinct seen (front ++ middle ++ back) := by
  rw [List.append_assoc, List.append_assoc, distinct_append, distinct_append seen front (middle ++ back),
    distinct_distinct_append (List.nil_subset _)]

/-- What is kept of the pieces made from some elements is made from the first elements of each text, in
their order. -/
theorem exists_distinct_map {α : Type} (make : α → Piece) (xs : List α) (seen : List String) :
    ∃ firsts : List α, firsts.Sublist xs ∧ distinct seen (xs.map make) = firsts.map make ∧
      ∀ x ∈ firsts, (make x).text ∉ seen ∧ IsFirst (fun y => (make y).text = (make x).text) xs x := by
  induction xs generalizing seen with
  | nil => exact ⟨[], .slnil, rfl, by simp⟩
  | cons x xs ih =>
    rw [List.map_cons]
    by_cases known : (make x).text ∈ seen
    · obtain ⟨firsts, sublist, same, each⟩ := ih seen
      refine ⟨firsts, sublist.cons x, ?_, fun y member => ?_⟩
      · rw [distinct_cons_of_mem known, same]
      · obtain ⟨unseen, first⟩ := each y member
        exact ⟨unseen, isFirst_cons.mpr (Or.inr ⟨fun eq => unseen (eq ▸ known), first⟩)⟩
    · obtain ⟨firsts, sublist, same, each⟩ := ih ((make x).text :: seen)
      refine ⟨x :: firsts, sublist.cons_cons x, ?_, List.forall_mem_cons.mpr ⟨?_, fun y member => ?_⟩⟩
      · rw [distinct_cons_of_not_mem known, same, List.map_cons]
      · exact ⟨known, isFirst_cons.mpr (Or.inl ⟨rfl, rfl⟩)⟩
      · obtain ⟨unseen, first⟩ := each y member
        rw [List.mem_cons, not_or] at unseen
        exact ⟨unseen.2, isFirst_cons.mpr (Or.inr ⟨fun eq => unseen.1 eq.symm, first⟩)⟩

/-- The pieces in order of the length of their texts, the first one of each text. -/
def ordered (pieces : List Piece) : List Piece :=
  bySize (fun piece => piece.text.length) (distinct [] pieces)

/-- Pieces in the middle may be put in order first. -/
theorem ordered_middle (front middle back : List Piece) :
    ordered (front ++ ordered middle ++ back) = ordered (front ++ middle ++ back) := by
  -- Among texts of one length, putting in order does nothing, and leaving out what has been met may
  -- be done in the middle first.
  apply bySize_congr
  intro n
  have byText (first second : Piece) (same : first.text = second.text) :
      (first.text.length == n) = (second.text.length == n) := by rw [same]
  have picked : (ordered middle).filter (fun piece => piece.text.length == n) =
      distinct [] (middle.filter fun piece => piece.text.length == n) := by
    rw [ordered, filter_bySize (fun piece : Piece => piece.text.length), filter_distinct byText]
  simp only [filter_distinct byText, List.filter_append, picked, distinct_middle]

end Piece

namespace Gathering

variable {gathering : Gathering}

/-- Gathered pieces are put in order of the length of their texts. -/
theorem pieces_byLength (consistent : Consistent gathering) :
    gathering.byLength.pieces = bySize (fun piece => piece.text.length) gathering.pieces := by
  have lengths : ∀ entry ∈ gathering.kept.reverse, entry.1.length = entry.2.text.length := by
    intro entry member
    rw [consistent.own entry (List.mem_reverse.mp member)]
  rw [pieces, bySize_map, byLength, bySize_map, List.map_map, bySize_congr_size lengths]
  rfl

/-- The first pieces of each text, those that there is room for, are put in order. -/
theorem exists_pieces_byLength {α : Type} (limit : Nat) (batch : α → Alternatives)
    (sources : List α) :
    ∃ kept, kept <+: Piece.distinct [] (sources.flatMap fun source => (batch source).pieces) ∧
      (empty.collect limit batch sources).byLength.pieces =
        bySize (fun piece => piece.text.length) kept := by
  have gathers := gathers_collect limit batch consistent_empty sources
  exact ⟨_, gathers.part, pieces_byLength gathers.consistent⟩

theorem pieces_byLength_collect {α : Type} {limit : Nat} {batch : α → Alternatives}
    {sources : List α} (uncut : (empty.collect limit batch sources).truncated = false) :
    (empty.collect limit batch sources).byLength.pieces =
      Piece.ordered (sources.flatMap fun source => (batch source).pieces) := by
  have consistent := (gathers_collect limit batch consistent_empty sources).consistent
  rw [pieces_byLength consistent, pieces_collect uncut, Piece.ordered]

end Gathering

end ValueGrammar
