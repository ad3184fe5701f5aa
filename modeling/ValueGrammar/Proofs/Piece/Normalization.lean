import Mathlib.Data.List.Basic
import ValueGrammar.Piece.Basic
import ValueGrammar.Proofs.Lexeme.Written

/-!
Normalization of pieces. How a piece reads within a longer one depends on its tokens, the
separators between them, and the separators at its two ends; normalization keeps only the former.
The text of a piece says as much as its normalization does, if its tokens are written as they are
read.
-/
namespace ValueGrammar.Piece

def leading : Piece → Option Separator
  | .separator s :: _ => some s
  | _ => none

/-- The first explicit separator behind the last token, where `pending` is the one met before the
piece. -/
def pendingAfter (pending : Option Separator) : Piece → Option Separator
  | [] => pending
  | .token _ :: rest => pendingAfter none rest
  | .separator s :: rest => pendingAfter (pending.or (some s)) rest

def trailing (piece : Piece) : Option Separator :=
  pendingAfter none piece

/-- The same tokens behind separators of which the first one is another. -/
def withFirst (s : Separator) : List (Separator × String) → List (Separator × String)
  | [] => []
  | (_, text) :: rest => (s, text) :: rest

/-! ### Steps of a piece -/

theorem steps_append (pending : Option Separator) (p q : Piece) :
    steps pending (p ++ q) = steps pending p ++ steps (pendingAfter pending p) q := by
  induction p generalizing pending with
  | nil => rfl
  | cons atom rest ih =>
    cases atom with
    | token text => simp [steps, pendingAfter, ih]
    | separator s => simp [steps, pendingAfter, ih]

theorem pendingAfter_append (pending : Option Separator) (p q : Piece) :
    pendingAfter pending (p ++ q) = pendingAfter (pendingAfter pending p) q := by
  induction p generalizing pending with
  | nil => rfl
  | cons atom rest ih => cases atom <;> exact ih _

/-- A separator in front of a piece matters to the first token only. -/
theorem steps_eq (pending : Option Separator) (p : Piece) :
    steps pending p = withFirst ((pending.or p.leading).getD .space) (steps none p) := by
  induction p generalizing pending with
  | nil => rfl
  | cons atom rest ih =>
    cases atom with
    | token text => simp [steps, leading, withFirst]
    | separator s =>
      have here := ih (pending.or (some s))
      have alone := ih (some s)
      simp only [steps, leading, Option.none_or] at here alone ⊢
      rw [here, alone]
      cases steps none rest <;> cases pending <;> rfl

theorem pendingAfter_eq (pending : Option Separator) (p : Piece) :
    pendingAfter pending p =
      if steps none p = [] then pending.or p.leading else p.trailing := by
  induction p generalizing pending with
  | nil => simp [pendingAfter, steps, leading]
  | cons atom rest ih =>
    cases atom with
    | token text => simp [pendingAfter, steps, trailing]
    | separator s =>
      have here := ih (pending.or (some s))
      have alone := ih (some s)
      have empty : steps (some s) rest = [] ↔ steps none rest = [] := by
        rw [steps_eq]
        cases steps none rest <;> simp [withFirst]
      simp only [pendingAfter, steps, leading, trailing, Option.none_or, empty] at here alone ⊢
      rw [here]
      by_cases none : steps none rest = []
      · cases pending <;> simp [none]
      · rw [if_neg none, if_neg none, alone, if_neg none]

/-- The first step of a piece loses its separator, the others are its tokens with theirs. -/
theorem normalize_eq_steps (pending : Option Separator) (p : Piece) :
    p.normalize = ((steps pending p).map (·.2), ((steps pending p).map (·.1)).tail) := by
  induction p generalizing pending with
  | nil => rfl
  | cons atom rest ih =>
    cases atom with
    | token text => rfl
    | separator s => exact ih (pending.or (some s))

theorem length_normalize (p : Piece) : p.normalize.2.length = p.normalize.1.length - 1 := by
  rw [normalize_eq_steps none]
  simp

theorem length_tokens_le (p : Piece) : p.normalize.1.length ≤ p.length := by
  rw [normalize_eq_steps none, List.length_map]
  generalize (none : Option Separator) = pending
  induction p generalizing pending with
  | nil => exact Nat.le_refl 0
  | cons atom rest ih =>
    cases atom with
    | token text => exact Nat.succ_le_succ (ih none)
    | separator s => exact Nat.le_succ_of_le (ih _)

theorem mem_normalize {p : Piece} {text : String} :
    text ∈ p.normalize.1 ↔ .token text ∈ p := by
  rw [normalize_eq_steps none]
  generalize (none : Option Separator) = pending
  induction p generalizing pending with
  | nil => simp [steps]
  | cons atom rest ih =>
    cases atom with
    | token other => simp [steps, ih]
    | separator s => simp [steps, ih]

/-- Pieces of written tokens with the same text have the same tokens and separators. -/
theorem normalize_eq_of_text {p q : Piece} (left : ∀ text, .token text ∈ p → Written text)
    (right : ∀ text, .token text ∈ q → Written text) (same : p.text = q.text) :
    p.normalize = q.normalize := by
  have left' : ∀ text ∈ p.normalize.1, Written text := fun text member =>
    left text (mem_normalize.mp member)
  have right' : ∀ text ∈ q.normalize.1, Written text := fun text member =>
    right text (mem_normalize.mp member)
  obtain ⟨texts, separators⟩ :=
    Separator.join_injective left' right' (length_normalize p) (length_normalize q) same
  exact Prod.ext texts separators

/-! ### Pieces that read alike everywhere -/

/-- Pieces with the same tokens and separators, those at the ends included. -/
structure Alike (p q : Piece) : Prop where
  inside : p.normalize = q.normalize
  front : p.leading = q.leading
  back : p.trailing = q.trailing

theorem Alike.refl (p : Piece) : Alike p p :=
  ⟨rfl, rfl, rfl⟩

theorem Alike.steps {p q : Piece} (alike : Alike p q) (pending : Option Separator) :
    steps pending p = steps pending q := by
  rw [steps_eq, steps_eq pending q, alike.front]
  have inside := alike.inside
  rw [normalize_eq_steps none, normalize_eq_steps none q, Prod.mk.injEq] at inside
  obtain ⟨texts, separators⟩ := inside
  cases left : Piece.steps none p with
  | nil =>
    cases right : Piece.steps none q with
    | nil => rfl
    | cons step rest => simp [left, right] at texts
  | cons step rest =>
    cases right : Piece.steps none q with
    | nil => simp [left, right] at texts
    | cons step' rest' =>
      rw [left, right] at texts separators
      simp only [List.map_cons, List.cons.injEq, List.tail_cons] at texts separators
      have same : rest = rest' := by
        rw [List.zip_of_prod separators texts.2]
        exact (List.zip_of_prod rfl rfl).symm
      simp only [withFirst]
      rw [texts.1, same]

theorem Alike.pendingAfter {p q : Piece} (alike : Alike p q) (pending : Option Separator) :
    pendingAfter pending p = pendingAfter pending q := by
  rw [pendingAfter_eq, pendingAfter_eq pending q, alike.steps, alike.front, alike.back]

/-- Pieces that read alike can stand in for each other in every longer piece. -/
theorem Alike.within {p q : Piece} (alike : Alike p q) (front back : Piece) :
    (front ++ p ++ back).normalize = (front ++ q ++ back).normalize := by
  rw [normalize_eq_steps none, normalize_eq_steps none (front ++ q ++ back)]
  simp only [steps_append, pendingAfter_append, alike.steps, alike.pendingAfter]

/-! ### Pieces without needless separators -/

/-- The explicit separators that stand for a separator: none for a space. -/
def atoms : Separator → Piece
  | .space => []
  | s => [.separator s]

def spell : List String → List Separator → Piece
  | [], _ => []
  | [text], _ => [.token text]
  | text :: texts, separators =>
    .token text :: (atoms (separators.headD .space) ++ spell texts separators.tail)

theorem steps_atoms (s : Separator) (text : String) (rest : Piece) :
    steps none (atoms s ++ .token text :: rest) = (s, text) :: steps none rest := by
  cases s <;> rfl

theorem spell_cons (text : String) (texts : List String) (separators : List Separator) :
    ∃ rest, spell (text :: texts) separators = .token text :: rest := by
  cases texts with
  | nil => exact ⟨[], rfl⟩
  | cons next texts => exact ⟨_, rfl⟩

theorem steps_spell {text : String} {texts : List String} {separators : List Separator}
    (length : separators.length = texts.length) (pending : Option Separator) :
    steps pending (spell (text :: texts) separators) =
      (pending.getD .space, text) :: separators.zip texts := by
  induction texts generalizing text separators pending with
  | nil =>
    cases separators with
    | nil => rfl
    | cons s separators => cases length
  | cons next texts ih =>
    cases separators with
    | nil => cases length
    | cons s separators =>
      have later : steps (some s) (spell (next :: texts) separators) =
          ((some s).getD .space, next) :: separators.zip texts := ih (Nat.succ.inj length) (some s)
      obtain ⟨rest, shape⟩ := spell_cons next texts separators
      simp only [spell, List.headD_cons, List.tail_cons, steps, List.zip_cons_cons]
      rw [shape] at later ⊢
      rw [steps_atoms]
      simp only [steps, Option.getD_some, List.cons.injEq, true_and] at later ⊢
      exact later

/-- Normalization gives back what a piece was spelled from. -/
theorem normalize_spell {texts : List String} {separators : List Separator}
    (length : separators.length = texts.length - 1) :
    (spell texts separators).normalize = (texts, separators) := by
  cases texts with
  | nil =>
    cases separators with
    | nil => rfl
    | cons s separators => cases length
  | cons text texts =>
    rw [normalize_eq_steps none, steps_spell length]
    simp only [List.length_cons, Nat.add_sub_cancel] at length
    simp [List.map_snd_zip, List.map_fst_zip, length]

theorem spell_append {texts texts' : List String} {separators separators' : List Separator}
    (left : texts ≠ []) (right : texts' ≠ []) (length : separators.length = texts.length - 1)
    (s : Separator) :
    spell texts separators ++ atoms s ++ spell texts' separators' =
      spell (texts ++ texts') (separators ++ s :: separators') := by
  induction texts generalizing separators with
  | nil => exact absurd rfl left
  | cons text texts ih =>
    cases texts with
    | nil =>
      cases separators with
      | cons s separators => cases length
      | nil =>
        cases texts' with
        | nil => exact absurd rfl right
        | cons text' texts' => rfl
    | cons next texts =>
      cases separators with
      | nil => cases length
      | cons first separators =>
        have later := ih (by simp) (Nat.succ.inj length)
        simp only [spell, List.cons_append, List.headD_cons, List.tail_cons, List.append_assoc]
          at later ⊢
        rw [later]

/-- A piece with no separator but between two tokens, one at most there, and none that is a
space. -/
def Tight (p : Piece) : Prop :=
  p = spell p.normalize.1 p.normalize.2

theorem tight_spell {texts : List String} {separators : List Separator}
    (length : separators.length = texts.length - 1) : Tight (spell texts separators) := by
  rw [Tight, normalize_spell length]

/-- Tight pieces are determined by their tokens and the separators between them. -/
theorem Tight.eq {p q : Piece} (left : Tight p) (right : Tight q)
    (same : p.normalize = q.normalize) : p = q := by
  rw [left, right, same]

theorem tight_nil : Tight [] := rfl

theorem tight_token (text : String) : Tight [.token text] := rfl

theorem Tight.exists_spell {p : Piece} (tight : Tight p) (nonempty : p ≠ []) :
    ∃ texts separators, texts ≠ [] ∧ separators.length = texts.length - 1 ∧
      p = spell texts separators := by
  refine ⟨p.normalize.1, p.normalize.2, ?_, length_normalize p, tight⟩
  intro none
  rw [Tight, none] at tight
  exact nonempty tight

/-- Two tight pieces in a row, with a comma or nothing between them, are a tight piece. -/
theorem tight_append {joiner : Option Separator} {p q : Piece} (left : Tight p) (right : Tight q)
    (solid : joiner ≠ some .space) : Tight (append joiner p q) := by
  by_cases none : p = [] ∨ q = []
  · have plain : append joiner p q = p ++ q := by
      cases joiner with
      | none => rfl
      | some s => rcases none with rfl | rfl <;> simp [append]
    rw [plain]
    rcases none with rfl | rfl
    · exact right
    · rw [List.append_nil]
      exact left
  · rw [not_or] at none
    obtain ⟨texts, separators, some, length, rfl⟩ := left.exists_spell none.1
    obtain ⟨texts', separators', some', length', rfl⟩ := right.exists_spell none.2
    have row : append joiner (spell texts separators) (spell texts' separators') =
        spell texts separators ++ atoms (joiner.getD .space) ++ spell texts' separators' := by
      cases joiner with
      | none => simp [append, atoms]
      | some s =>
        cases s with
        | space => exact absurd rfl solid
        | _ => simp [append, atoms, none.1, none.2]
    rw [row, spell_append some some' length]
    apply tight_spell
    have := List.length_pos_iff.mpr some
    have := List.length_pos_iff.mpr some'
    simp only [List.length_append, List.length_cons]
    omega

end ValueGrammar.Piece
