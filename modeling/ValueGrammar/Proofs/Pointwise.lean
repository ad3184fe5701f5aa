import Mathlib.Data.List.Forall2
import Mathlib.Data.List.Induction

/-!
Steps that may fail, lists related element by element, and the first element with a property.
-/
namespace ValueGrammar

/-! ### Successful steps -/

theorem bind_eq_ok {ε α β : Type} {first : Except ε α} {next : α → Except ε β} {b : β} :
    (first >>= next) = .ok b ↔ ∃ a, first = .ok a ∧ next a = .ok b := by
  cases first with
  | error e =>
    constructor
    · intro h
      cases h
    · intro given
      obtain ⟨a, h, -⟩ := given
      cases h
  | ok a =>
    constructor
    · intro h
      exact ⟨a, rfl, h⟩
    · intro given
      obtain ⟨b, h, later⟩ := given
      cases h
      exact later

/-- Two steps fail where the first one does, or where the second one does behind it. -/
theorem bind_eq_error {ε α β : Type} {first : Except ε α} {next : α → Except ε β} {e : ε} :
    (first >>= next) = .error e ↔ first = .error e ∨ ∃ a, first = .ok a ∧ next a = .error e := by
  cases first with
  | error e' =>
    constructor
    · intro h
      cases h
      exact Or.inl rfl
    · intro given
      rcases given with h | ⟨a, h, -⟩
      · cases h
        rfl
      · cases h
  | ok a =>
    constructor
    · intro h
      exact Or.inr ⟨a, rfl, h⟩
    · intro given
      rcases given with h | ⟨b, h, later⟩
      · cases h
      · cases h
        exact later

/-- A result that passes a test is there. -/
theorem exists_ok_of_any {ε α : Type} {result : Except ε α} {test : α → Bool}
    (passed : result.toOption.any test = true) : ∃ a, result = .ok a ∧ test a = true := by
  cases result with
  | error e => cases passed
  | ok a => exact ⟨a, rfl, passed⟩

/-- Visiting a list succeeds if every visit does. -/
theorem mapM_eq_ok {ε α β : Type} {visit : α → Except ε β} {xs : List α} {ys : List β} :
    xs.mapM visit = .ok ys ↔ List.Forall₂ (fun x y => visit x = .ok y) xs ys := by
  induction xs generalizing ys with
  | nil =>
    rw [List.mapM_nil, List.forall₂_nil_left_iff]
    constructor
    · intro h
      cases h
      rfl
    · intro given
      subst given
      rfl
  | cons x xs ih =>
    rw [List.mapM_cons, bind_eq_ok, List.forall₂_cons_left_iff]
    constructor
    · intro given
      obtain ⟨y, here, h⟩ := given
      obtain ⟨others, later, eq⟩ := bind_eq_ok.mp h
      cases eq
      exact ⟨y, others, here, ih.mp later, rfl⟩
    · intro given
      obtain ⟨y, others, here, later, rfl⟩ := given
      exact ⟨y, here, bind_eq_ok.mpr ⟨others, ih.mpr later, rfl⟩⟩

/-! ### First elements -/

def IsFirst {α : Type} (p : α → Prop) (xs : List α) (x : α) : Prop :=
  p x ∧ ∃ before after, xs = before ++ x :: after ∧ ∀ y ∈ before, ¬ p y

theorem IsFirst.mem {α : Type} {p : α → Prop} {xs : List α} {x : α} (first : IsFirst p xs x) :
    x ∈ xs := by
  obtain ⟨-, before, after, rfl, -⟩ := first
  simp

theorem isFirst_cons {α : Type} {p : α → Prop} {x y : α} {xs : List α} :
    IsFirst p (x :: xs) y ↔ (p x ∧ y = x) ∨ (¬ p x ∧ IsFirst p xs y) := by
  constructor
  · intro given
    obtain ⟨holds, before, after, split, others⟩ := given
    cases before with
    | nil =>
      cases split
      exact Or.inl ⟨holds, rfl⟩
    | cons z before =>
      cases split
      exact Or.inr ⟨others _ List.mem_cons_self, holds, before, after, rfl,
        fun other member => others other (List.mem_cons_of_mem _ member)⟩
  · intro given
    rcases given with ⟨holds, rfl⟩ | ⟨fails, holds, before, after, rfl, others⟩
    · exact ⟨holds, [], xs, rfl, by simp⟩
    · refine ⟨holds, x :: before, after, rfl, ?_⟩
      intro other member
      rcases List.mem_cons.mp member with rfl | later
      · exact fails
      · exact others other later

theorem isFirst_congr {α : Type} {p q : α → Prop} {xs : List α} (same : ∀ x ∈ xs, p x ↔ q x)
    {x : α} : IsFirst p xs x ↔ IsFirst q xs x := by
  induction xs with
  | nil =>
    constructor
    · intro first
      cases first.mem
    · intro first
      cases first.mem
  | cons y xs ih =>
    rw [isFirst_cons, isFirst_cons, same y List.mem_cons_self,
      ih fun other member => same other (List.mem_cons_of_mem y member)]

theorem isFirst_append {α : Type} {p : α → Prop} {xs ys : List α} {x : α} :
    IsFirst p (xs ++ ys) x ↔ IsFirst p xs x ∨ (∀ y ∈ xs, ¬ p y) ∧ IsFirst p ys x := by
  induction xs with
  | nil => simp [IsFirst]
  | cons y xs ih =>
    simp only [List.cons_append, isFirst_cons, ih, List.forall_mem_cons]
    tauto

theorem isFirst_filterMap {α β : Type} {f : α → Option β} {p : β → Prop} {xs : List α} {y : β} :
    IsFirst p (xs.filterMap f) y ↔
      ∃ x, IsFirst (fun x => ∃ z ∈ f x, p z) xs x ∧ f x = some y := by
  induction xs with
  | nil => simp [IsFirst]
  | cons x xs ih =>
    cases image : f x with
    | none => simp [isFirst_cons, image, ih]
    | some z =>
      simp only [List.filterMap_cons, image, isFirst_cons, ih, Option.mem_def, Option.some.injEq,
        exists_eq_left']
      constructor
      · rintro (⟨holds, rfl⟩ | ⟨fails, x', first, eq⟩)
        · exact ⟨x, Or.inl ⟨holds, rfl⟩, image⟩
        · exact ⟨x', Or.inr ⟨fails, first⟩, eq⟩
      · rintro ⟨x', ⟨holds, rfl⟩ | ⟨fails, first⟩, eq⟩
        · rw [image, Option.some.injEq] at eq
          exact Or.inl ⟨holds, eq.symm⟩
        · exact Or.inr ⟨fails, x', first, eq⟩

theorem IsFirst.unique {α : Type} {p : α → Prop} {xs : List α} {x y : α} (first : IsFirst p xs x)
    (other : IsFirst p xs y) : x = y := by
  induction xs with
  | nil => cases first.mem
  | cons z xs ih =>
    rw [isFirst_cons] at first other
    rcases first with ⟨holds, rfl⟩ | ⟨fails, first⟩ <;>
      rcases other with ⟨holds', rfl⟩ | ⟨fails', other⟩
    · rfl
    · exact absurd holds fails'
    · exact absurd holds' fails
    · exact ih first other

theorem exists_isFirst {α : Type} {p : α → Prop} {xs : List α} {x : α} (member : x ∈ xs)
    (holds : p x) : ∃ y, IsFirst p xs y := by
  induction xs with
  | nil => cases member
  | cons y xs ih =>
    by_cases here : p y
    · exact ⟨y, isFirst_cons.mpr (Or.inl ⟨here, rfl⟩)⟩
    · have behind : x ∈ xs := by
        rcases List.mem_cons.mp member with rfl | later
        · exact absurd holds here
        · exact later
      obtain ⟨z, first⟩ := ih behind
      exact ⟨z, isFirst_cons.mpr (Or.inr ⟨here, first⟩)⟩

/-- A search finds the first element that passes the test. -/
theorem find?_eq_some_iff_isFirst {α : Type} {test : α → Bool} {xs : List α} {x : α} :
    xs.find? test = some x ↔ IsFirst (test · = true) xs x := by
  simp only [List.find?_eq_some_iff_append, IsFirst, Bool.not_eq_true, Bool.not_eq_true']

/-- Visiting a list fails at the first element whose visit does. -/
theorem mapM_eq_error {ε α β : Type} {visit : α → Except ε β} {xs : List α} {e : ε} :
    xs.mapM visit = .error e ↔
      ∃ x, IsFirst (fun y => ∃ e', visit y = .error e') xs x ∧ visit x = .error e := by
  induction xs with
  | nil =>
    constructor
    · intro h
      cases h
    · intro given
      obtain ⟨x, first, -⟩ := given
      cases first.mem
  | cons x xs ih =>
    simp only [List.mapM_cons, bind_eq_error, ih, isFirst_cons]
    constructor
    · intro given
      rcases given with here | ⟨y, here, ⟨z, first, refused⟩ | ⟨ys, -, made⟩⟩
      · exact ⟨x, Or.inl ⟨⟨e, here⟩, rfl⟩, here⟩
      · refine ⟨z, Or.inr ⟨?_, first⟩, refused⟩
        rw [here]
        simp
      · cases made
    · intro given
      obtain ⟨z, ⟨-, rfl⟩ | ⟨passes, first⟩, refused⟩ := given
      · exact Or.inl refused
      · cases here : visit x with
        | error e' => exact absurd ⟨e', here⟩ passes
        | ok y => exact Or.inr ⟨y, rfl, Or.inl ⟨z, first, refused⟩⟩

/-! ### Related lists -/

theorem exists_forall₂_sublist {α β : Type} {R : α → β → Prop} {xs chosen : List α} {ys : List β}
    (related : List.Forall₂ R xs ys) (sublist : chosen.Sublist xs) :
    ∃ chosen', chosen'.Sublist ys ∧ List.Forall₂ R chosen chosen' := by
  induction sublist generalizing ys with
  | slnil =>
    cases related
    exact ⟨[], .slnil, .nil⟩
  | cons x _ ih =>
    cases related with
    | cons _ others =>
      obtain ⟨chosen', sublist', behind⟩ := ih others
      exact ⟨chosen', sublist'.cons _, behind⟩
  | cons_cons x _ ih =>
    cases related with
    | cons here others =>
      obtain ⟨chosen', sublist', behind⟩ := ih others
      exact ⟨_ :: chosen', sublist'.cons_cons _, .cons here behind⟩

theorem forall₂_trans {α β γ : Type} {R : α → β → Prop} {S : β → γ → Prop} {T : α → γ → Prop}
    (compose : ∀ x y z, R x y → S y z → T x z) {xs : List α} {ys : List β} {zs : List γ}
    (first : List.Forall₂ R xs ys) (second : List.Forall₂ S ys zs) : List.Forall₂ T xs zs := by
  induction first generalizing zs with
  | nil =>
    cases second
    exact .nil
  | cons here _ ih =>
    cases second with
    | cons next others => exact .cons (compose _ _ _ here next) (ih others)

theorem forall₂_replicate {α β : Type} {R : α → β → Prop} {x : α} {y : β} (related : R x y)
    (count : Nat) : List.Forall₂ R (List.replicate count x) (List.replicate count y) := by
  induction count with
  | zero => exact .nil
  | succ count ih => exact .cons related ih

theorem exists_mem_of_forall₂ {α β : Type} {R : α → β → Prop} {xs : List α} {ys : List β}
    (related : List.Forall₂ R xs ys) {x : α} (member : x ∈ xs) : ∃ y ∈ ys, R x y := by
  induction related with
  | nil => cases member
  | cons here _ ih =>
    rcases List.mem_cons.mp member with rfl | later
    · exact ⟨_, List.mem_cons_self, here⟩
    · obtain ⟨y, inside, found⟩ := ih later
      exact ⟨y, List.mem_cons_of_mem _ inside, found⟩

theorem exists_forall₂ {α β : Type} {R : α → β → Prop} {xs : List α}
    (each : ∀ x ∈ xs, ∃ y, R x y) : ∃ ys, List.Forall₂ R xs ys := by
  induction xs with
  | nil => exact ⟨[], .nil⟩
  | cons x xs ih =>
    obtain ⟨y, here⟩ := each x List.mem_cons_self
    obtain ⟨ys, later⟩ := ih fun other member => each other (List.mem_cons_of_mem _ member)
    exact ⟨y :: ys, .cons here later⟩

theorem exists_map_eq_ok {ε α β : Type} {result : Except ε α} {f : α → β} :
    (∃ b, result.map f = .ok b) ↔ ∃ a, result = .ok a := by
  cases result <;> simp [Except.map]

theorem exists_mapM_eq_ok {ε α β : Type} {visit : α → Except ε β} {xs : List α} :
    (∃ ys, xs.mapM visit = .ok ys) ↔ ∀ x ∈ xs, ∃ y, visit x = .ok y := by
  constructor
  · intro given x member
    obtain ⟨ys, visited⟩ := given
    obtain ⟨y, -, here⟩ := exists_mem_of_forall₂ (mapM_eq_ok.mp visited) member
    exact ⟨y, here⟩
  · intro each
    obtain ⟨ys, related⟩ := exists_forall₂ each
    exact ⟨ys, mapM_eq_ok.mpr related⟩

theorem forall₂_of_mem {α β : Type} {R S : α → β → Prop} {xs : List α} {ys : List β}
    (related : List.Forall₂ R xs ys) (imp : ∀ x ∈ xs, ∀ y, R x y → S x y) : List.Forall₂ S xs ys := by
  induction related with
  | nil => exact .nil
  | cons here _ ih =>
    constructor
    · exact imp _ List.mem_cons_self _ here
    · exact ih fun x member => imp x (List.mem_cons_of_mem _ member)

theorem pairwise_of_forall₂ {α β : Type} {R : α → β → Prop} {P : α → α → Prop} {Q : β → β → Prop}
    {xs : List α} {ys : List β} (related : List.Forall₂ R xs ys)
    (transfer : ∀ x y x' y', R x y → R x' y' → P x x' → Q y y') (ordered : xs.Pairwise P) :
    ys.Pairwise Q := by
  induction related with
  | nil => exact .nil
  | cons here others ih =>
    obtain ⟨first, rest⟩ := List.pairwise_cons.mp ordered
    refine List.pairwise_cons.mpr ⟨fun y member => ?_, ih rest⟩
    obtain ⟨x, inside, held⟩ := exists_mem_of_forall₂ others.flip member
    exact transfer _ _ _ _ here held (first x inside)

theorem findSome?_congr {α β : Type} {p q : α → Option β} {xs : List α}
    (same : ∀ x ∈ xs, p x = q x) : xs.findSome? p = xs.findSome? q := by
  induction xs with
  | nil => rfl
  | cons x xs ih =>
    rw [List.findSome?_cons, List.findSome?_cons, same x List.mem_cons_self,
      ih fun y member => same y (List.mem_cons_of_mem _ member)]

/-! ### Lists without duplicates -/

section Duplicates

variable {α : Type} [BEq α] [LawfulBEq α]

theorem nodup_eraseDups (xs : List α) : xs.eraseDups.Nodup := by
  induction xs using List.reverseRecOn with
  | nil => exact List.nodup_nil
  | append_singleton xs x ih =>
    rw [List.eraseDups_append, List.nodup_append]
    refine ⟨ih, ?_, ?_⟩
    · by_cases met : x ∈ xs <;> simp [List.removeAll, met, List.eraseDups_cons]
    · intro y earlier z later
      simp only [List.removeAll, List.mem_eraseDups, List.mem_filter, List.elem_eq_mem,
        Bool.not_eq_true', decide_eq_false_iff_not] at earlier later
      rintro rfl
      exact later.2 earlier

/-- Elements stand in the order in which they come first. -/
theorem eraseDups_sublist (xs : List α) : xs.eraseDups.Sublist xs := by
  induction xs using List.reverseRecOn with
  | nil => exact .slnil
  | append_singleton xs x ih =>
    rw [List.eraseDups_append]
    refine ih.append ?_
    by_cases met : x ∈ xs <;> simp [List.removeAll, met, List.eraseDups_cons]

theorem eraseDups_eq_self {xs : List α} (nodup : xs.Nodup) : xs.eraseDups = xs := by
  induction xs with
  | nil => rfl
  | cons x xs ih =>
    obtain ⟨fresh, others⟩ := List.nodup_cons.mp nodup
    have kept : xs.filter (fun y => !y == x) = xs := by
      refine List.filter_eq_self.mpr fun y member => ?_
      simpa using ne_of_mem_of_not_mem member fresh
    rw [List.eraseDups_cons, kept, ih others]

end Duplicates

end ValueGrammar
