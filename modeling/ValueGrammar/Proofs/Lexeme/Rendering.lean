import Mathlib.Data.List.Chain
import ValueGrammar.Proofs.Lexeme.Multipliers
import ValueGrammar.Proofs.Lexeme.Written
import ValueGrammar.Proofs.Pointwise

/-!
Reading what lexemes are written as. Spaces keep most neighbours apart, and the rest are kept apart
by their first characters, but for one pair: the sign `#` takes plain braces behind it.
-/
namespace ValueGrammar

open Unicode Text

namespace Lexeme

/-! ### Single lexemes -/

/-- Lexemes that can stand in a grammar: what is written as a token is one, and counts in braces are
below their limit. -/
def IsReadable : Lexeme → Prop
  | token text => IsToken text.toList
  | multiplier m => IsCountable m
  | _ => True

/-- Text that a lexeme in front of it does not take anything of. -/
def StandsApart (x : Lexeme) (rest : List Char) : Prop :=
  match x with
  | token _ => StopsBefore continuesToken rest
  | bar => rest.head? ≠ some '|'
  | multiplier m => m = .commaList → rest.head? ≠ some '\x7b'
  | _ => True

/-- Every lexeme is read back from its text, if what follows is apart from it. -/
theorem readAll_lexeme {x : Lexeme} (readable : x.IsReadable) {rest : List Char}
    (apart : x.StandsApart rest) :
    readAll (x.text.toList ++ rest) = (readAll rest).map (x :: ·) := by
  cases x with
  | token text =>
    rw [Lexeme.text, readAll_token readable apart, String.ofList_toList]
  | multiplier m =>
    obtain ⟨c, known, more, whole⟩ := exists_head_multiplier m
    have next := next?_multiplier readable apart
    rw [Lexeme.text]
    rw [whole, List.cons_append] at next ⊢
    exact readAll_cons (apart_of_mem_multiplierChars known).2 next
  | bar => exact readAll_cons (by decide) (next?_bar apart)
  | doubleBar => exact readAll_cons (by decide) rfl
  | doubleAmpersand => exact readAll_cons (by decide) rfl
  | opening => exact readAll_opening rest
  | closing => exact readAll_closing rest
  | comma => exact readAll_cons (by decide) rfl
  | slash => exact readAll_cons (by decide) rfl

/-! ### Runs of lexemes -/

/-- What a lexeme adds to the text in front of it. -/
def behind (x : Lexeme) : List Char :=
  if x.isAttached then x.text.toList else ' ' :: x.text.toList

def trailing (xs : List Lexeme) : List Char :=
  xs.flatMap behind

theorem readAll_behind (x : Lexeme) (rest : List Char) :
    readAll (x.behind ++ rest) = readAll (x.text.toList ++ rest) := by
  unfold behind
  split
  · rfl
  · exact readAll_blank ' ' (by decide) _

/-- A lexeme is behind a space, or it is a comma or a multiplier. -/
theorem head_trailing (xs : List Lexeme) :
    ∀ c ∈ (trailing xs).head?, c = ' ' ∨ c = ',' ∨ c ∈ multiplierChars := by
  intro c first
  cases xs with
  | nil => cases first
  | cons x xs =>
    rw [trailing, List.flatMap_cons] at first
    cases x with
    | multiplier m =>
      obtain ⟨d, known, more, whole⟩ := exists_head_multiplier m
      have same : d = c := by simpa [behind, isAttached, Lexeme.text, whole] using first
      exact Or.inr (Or.inr (same ▸ known))
    | comma =>
      cases first
      exact Or.inr (Or.inl rfl)
    | _ =>
      cases first
      exact Or.inl rfl

/-- The lexeme that two neighbours become when they are written and read again: the sign `#` takes
plain braces. -/
def merge? : Lexeme → Lexeme → Option Lexeme
  | multiplier m, multiplier n =>
    if m = .commaList ∧ n.IsPlainBraces then some (multiplier { n with comma := true }) else none
  | _, _ => none

/-- A run in which every sign `#` has taken the plain braces behind it. -/
def merged : List Lexeme → List Lexeme
  | x :: y :: rest =>
    match merge? x y with
    | some z => z :: merged rest
    | none => x :: merged (y :: rest)
  | xs => xs

/-- A lexeme is apart from what is behind it, if that does not start with braces to take. -/
theorem standsApart_trailing {x : Lexeme} {xs : List Lexeme}
    (unmerged : ∀ y ∈ xs.head?, merge? x y = none) : x.StandsApart (trailing xs) := by
  have head := head_trailing xs
  cases x with
  | token text =>
    have others : (' ' :: ',' :: multiplierChars).all (!continuesToken ·) = true := by
      decide +kernel
    intro c first
    simpa using List.all_eq_true.mp others c (by simpa using head c first)
  | bar =>
    intro first
    simpa [multiplierChars] using head '|' first
  | multiplier m =>
    rintro rfl first
    cases xs with
    | nil => cases first
    | cons y xs =>
      have apart := unmerged y rfl
      cases y with
      | multiplier n =>
        obtain ⟨c, -, more, whole⟩ := exists_head_multiplier n
        have start : n.text.toList.head? = some '\x7b' := by
          simpa [trailing, behind, isAttached, Lexeme.text, whole] using first
        simp [merge?, isPlainBraces_of_head start] at apart
      | _ => cases first
  | _ => trivial

theorem merge?_eq_some {x y z : Lexeme} :
    merge? x y = some z ↔ ∃ m : Multiplier, m.IsPlainBraces ∧ x = multiplier .commaList ∧
      y = multiplier m ∧ z = multiplier { m with comma := true } := by
  constructor
  · intro same
    unfold merge? at same
    split at same
    · next m n =>
      simp only [Option.ite_none_right_eq_some, Option.some.injEq] at same
      obtain ⟨⟨rfl, plain⟩, rfl⟩ := same
      exact ⟨n, plain, rfl, rfl, rfl⟩
    · cases same
  · rintro ⟨m, plain, rfl, rfl, rfl⟩
    simp [merge?, plain]

/-- What plain braces become has the sign in front of them. -/
theorem text_merged {m : Multiplier} (plain : m.IsPlainBraces) :
    ({ m with comma := true } : Multiplier) ≠ .commaList ∧
      ({ m with comma := true } : Multiplier).text = "#" ++ m.text := by
  obtain ⟨min, max?, comma⟩ := m
  obtain ⟨rfl, braces⟩ := plain
  have different : (⟨min, max?, true⟩ : Multiplier) ≠ .commaList := by
    intro same
    cases same
    exact absurd braces (by decide)
  refine ⟨different, ?_⟩
  rw [braces]
  rcases Multiplier.text_cases ⟨min, max?, true⟩ with eq | eq | eq | eq | sharp | plain
  · cases eq
  · cases eq
  · cases eq
  · exact absurd eq different
  · exact sharp.2
  · cases plain.1

theorem trailing_cons (x : Lexeme) (xs : List Lexeme) :
    trailing (x :: xs) = x.behind ++ trailing xs :=
  List.flatMap_cons

/-- Two lexemes that become one are written as it is. -/
theorem text_merge? {x y z : Lexeme} (merges : merge? x y = some z) :
    z.text.toList = x.text.toList ++ y.behind ∧ x.isAttached = true ∧ z.isAttached = true := by
  obtain ⟨m, plain, rfl, rfl, rfl⟩ := merge?_eq_some.mp merges
  refine ⟨?_, rfl, rfl⟩
  simp only [behind, isAttached, if_true, Lexeme.text, (text_merged plain).2, String.toList_append]
  rfl

theorem behind_merge? {x y z : Lexeme} (merges : merge? x y = some z) :
    z.behind = x.behind ++ y.behind := by
  obtain ⟨whole, front, own⟩ := text_merge? merges
  have sign : z.behind = z.text.toList := if_pos own
  have first : x.behind = x.text.toList := if_pos front
  rw [sign, first, whole]

theorem isReadable_merge? {x y z : Lexeme} (merges : merge? x y = some z)
    (readable : y.IsReadable) : z.IsReadable := by
  obtain ⟨m, -, -, rfl, rfl⟩ := merge?_eq_some.mp merges
  exact ⟨readable.min, readable.max⟩

theorem standsApart_merge? {x y z : Lexeme} (merges : merge? x y = some z) (rest : List Char) :
    z.StandsApart rest := by
  obtain ⟨m, plain, -, -, rfl⟩ := merge?_eq_some.mp merges
  exact fun sign => absurd sign (text_merged plain).1

/-- Lexemes behind other text are read back, but for braces that a sign takes. -/
theorem readAll_trailing {xs : List Lexeme} (readable : ∀ x ∈ xs, x.IsReadable) :
    readAll (trailing xs) = .ok (merged xs) := by
  fun_induction merged xs with
  | case1 x y rest z merges ih =>
    have later := ih fun other member =>
      readable other (List.mem_cons_of_mem _ (List.mem_cons_of_mem _ member))
    have here := isReadable_merge? merges (readable y (by simp))
    rw [trailing_cons, trailing_cons, ← List.append_assoc, ← behind_merge? merges, readAll_behind,
      readAll_lexeme here (standsApart_merge? merges _), later]
    rfl
  | case2 x y rest unmerged ih =>
    have later := ih fun other member => readable other (List.mem_cons_of_mem _ member)
    have apart : x.StandsApart (trailing (y :: rest)) :=
      standsApart_trailing (by simpa using unmerged)
    rw [trailing_cons, readAll_behind, readAll_lexeme (readable x List.mem_cons_self) apart, later]
    rfl
  | case3 xs short =>
    match xs with
    | [] => exact readAll_nil
    | [x] =>
      have apart : x.StandsApart (trailing []) := standsApart_trailing (by simp)
      rw [trailing_cons, readAll_behind, readAll_lexeme (readable x List.mem_cons_self) apart]
      rw [show trailing [] = [] from rfl, readAll_nil]
      rfl
    | x :: y :: rest => exact (short x y rest rfl).elim

/-! ### Rendering -/

theorem toList_foldl_appendTo {written : String} (nonempty : written ≠ "") (xs : List Lexeme) :
    (xs.foldl appendTo written).toList = written.toList ++ trailing xs := by
  induction xs generalizing written with
  | nil => simp [trailing]
  | cons x xs ih =>
    have solid : written.isEmpty = false := by
      rw [← Bool.not_eq_true, String.isEmpty_iff]
      exact nonempty
    have step : (appendTo written x).toList = written.toList ++ x.behind := by
      unfold appendTo behind
      rw [solid, Bool.or_false]
      split <;> simp
    have more : appendTo written x ≠ "" := by
      intro empty
      rw [empty] at step
      exact nonempty (String.toList_eq_nil_iff.mp (List.append_eq_nil_iff.mp step.symm).1)
    rw [List.foldl_cons, ih more, step, trailing_cons, List.append_assoc]

theorem text_ne_empty {x : Lexeme} (readable : x.IsReadable) : x.text ≠ "" := by
  cases x with
  | token text =>
    intro empty
    have nonempty := (readToken?_eq_some (IsToken.readToken? readable (.nil _))).2
    exact nonempty (String.toList_eq_nil_iff.mpr empty)
  | multiplier m =>
    obtain ⟨c, -, more, whole⟩ := exists_head_multiplier m
    intro empty
    rw [Lexeme.text] at empty
    rw [empty] at whole
    cases whole
  | _ => decide

/-- The first lexeme stands without a space. -/
theorem toList_render_cons {x : Lexeme} (readable : x.IsReadable) (xs : List Lexeme) :
    (render (x :: xs)).toList = x.text.toList ++ trailing xs := by
  have first : appendTo "" x = x.text := by simp [appendTo]
  rw [render, List.foldl_cons, first, toList_foldl_appendTo (text_ne_empty readable)]

/-- What lexemes are written as is read as them, but for braces that a sign takes. -/
theorem readAll_render {xs : List Lexeme} (readable : ∀ x ∈ xs, x.IsReadable) :
    readAll (render xs).toList = .ok (merged xs) := by
  cases xs with
  | nil => exact readAll_nil
  | cons x xs =>
    rw [toList_render_cons (readable x List.mem_cons_self), ← readAll_behind, ← trailing_cons]
    exact readAll_trailing readable

theorem trailing_merged (xs : List Lexeme) : trailing (merged xs) = trailing xs := by
  fun_induction merged xs with
  | case1 x y rest z merges ih =>
    rw [trailing_cons, trailing_cons, trailing_cons, behind_merge? merges, ih, List.append_assoc]
  | case2 x y rest unmerged ih => rw [trailing_cons, trailing_cons, ih]
  | case3 => rfl

theorem isReadable_merged {xs : List Lexeme} (readable : ∀ x ∈ xs, x.IsReadable) :
    ∀ x ∈ merged xs, x.IsReadable := by
  fun_induction merged xs with
  | case1 x y rest z merges ih =>
    have later := ih fun other member => readable other (by simp [member])
    exact List.forall_mem_cons.mpr ⟨isReadable_merge? merges (readable y (by simp)), later⟩
  | case2 x y rest unmerged ih =>
    have later := ih fun other member => readable other (List.mem_cons_of_mem _ member)
    exact List.forall_mem_cons.mpr ⟨readable x List.mem_cons_self, later⟩
  | case3 => exact readable

/-- Lexemes that become one are written in the same way. -/
theorem render_merged {xs : List Lexeme} (readable : ∀ x ∈ xs, x.IsReadable) :
    render (merged xs) = render xs := by
  have still := isReadable_merged readable
  match xs with
  | [] => rfl
  | [x] => rfl
  | x :: y :: rest =>
    apply String.toList_injective
    have front := readable x List.mem_cons_self
    rw [merged] at still ⊢
    cases merges : merge? x y with
    | none =>
      rw [toList_render_cons front, trailing_merged, ← toList_render_cons front]
    | some z =>
      simp only [merges] at still ⊢
      rw [toList_render_cons (still z List.mem_cons_self), toList_render_cons front,
        (text_merge? merges).1, trailing_merged, trailing_cons, List.append_assoc]

/-- Tokens are not among the lexemes that become one. -/
theorem token_mem_of_mem_merged {xs : List Lexeme} {text : String}
    (member : token text ∈ merged xs) : token text ∈ xs := by
  fun_induction merged xs with
  | case1 x y rest z merges ih =>
    obtain ⟨m, -, -, -, rfl⟩ := merge?_eq_some.mp merges
    rcases List.mem_cons.mp member with same | later
    · cases same
    · exact List.mem_cons_of_mem _ (List.mem_cons_of_mem _ (ih later))
  | case2 x y rest unmerged ih =>
    rcases List.mem_cons.mp member with rfl | later
    · exact List.mem_cons_self
    · exact List.mem_cons_of_mem _ (ih later)
  | case3 => exact member

theorem length_merged_le (xs : List Lexeme) : (merged xs).length ≤ xs.length := by
  fun_induction merged xs with
  | case1 x y rest z merges ih =>
    simp only [List.length_cons]
    omega
  | case2 x y rest unmerged ih =>
    simp only [List.length_cons] at ih ⊢
    omega
  | case3 => exact Nat.le_refl _

/-- A run stays as it is if no two neighbours become one lexeme. -/
theorem merged_eq_self_iff {xs : List Lexeme} :
    merged xs = xs ↔ xs.IsChain fun x y => merge? x y = none := by
  fun_induction merged xs with
  | case1 x y rest z merges ih =>
    have shorter := length_merged_le rest
    constructor
    · intro same
      have lengths := congrArg List.length same
      simp only [List.length_cons] at lengths
      omega
    · intro chain
      rw [List.isChain_cons_cons, merges] at chain
      cases chain.1
  | case2 x y rest unmerged ih =>
    rw [List.cons_inj_right, ih, List.isChain_cons_cons]
    exact (and_iff_right unmerged).symm
  | case3 xs short =>
    match xs with
    | [] => simp
    | [x] => simp
    | x :: y :: rest => exact (short x y rest rfl).elim

/-! ### Lexemes of grammars -/

theorem isReadable_of_next? {cs : List Char} {x : Lexeme} {rest : List Char}
    (read : next? cs = some (x, rest)) : x.IsReadable := by
  unfold next? at read
  split at read
  case h_8 =>
    split at read
    · next found =>
      cases read
      exact isCountable_of_readMultiplier? found
    · obtain ⟨token, found, eq⟩ := Option.map_eq_some_iff.mp read
      cases eq
      change IsToken (String.ofList token.1).toList
      rw [String.toList_ofList]
      exact isToken_of_readToken? found
  all_goals
    cases read
    trivial

/-- The lexemes of a grammar can stand in one. -/
theorem isReadable_of_readAll {cs : List Char} {xs : List Lexeme} (read : readAll cs = .ok xs) :
    ∀ x ∈ xs, x.IsReadable := by
  induction size : cs.length using Nat.strongRecOn generalizing cs xs with
  | ind n ih =>
    subst size
    rcases readAll_eq_ok read with ⟨-, rfl⟩ | ⟨x, rest, ys, found, later, rfl⟩
    · simp
    · have shorter := next?_shorter found
      have atMost := length_dropBlanks_le cs
      intro y member
      rcases List.mem_cons.mp member with rfl | behind
      · exact isReadable_of_next? found
      · exact ih rest.length (by omega) later rfl y behind

/-- What a grammar's lexemes are written as has the same lexemes, if no sign `#` stands in front of
plain braces. -/
theorem render_round_trip {grammar : String} {items : List Lexeme}
    (lexed : ofGrammar grammar = .ok items) :
    ofGrammar (render items) = .ok items ↔
      ∀ front m back, items = front ++ .multiplier .commaList :: .multiplier m :: back →
        ¬ m.IsPlainBraces := by
  rw [ofGrammar_eq_ok] at lexed ⊢
  rw [readAll_render (isReadable_of_readAll lexed), Except.ok.injEq, merged_eq_self_iff,
    List.isChain_iff_forall_rel_of_append_cons_cons]
  constructor
  · intro apart front m back split plain
    have unmerged := apart split
    simp [merge?, plain] at unmerged
  · intro apart x y front back split
    rw [Option.eq_none_iff_forall_ne_some]
    intro z merges
    obtain ⟨m, plain, rfl, rfl, -⟩ := merge?_eq_some.mp merges
    exact apart front m back split plain

/-- `a# {2}` is written as `a#{2}`, where the sign takes the braces. -/
theorem render_round_trip_taken : ∃ items,
    ofGrammar "a# \x7b2\x7d" = .ok items ∧ render items = "a#\x7b2\x7d" ∧
      ofGrammar (render items) ≠ .ok items := by
  have computed : (ofGrammar "a# \x7b2\x7d").toOption.any
      (· == [.token "a", .multiplier .commaList, .multiplier ⟨2, some 2, false⟩]) = true := by
    decide +kernel
  obtain ⟨items, lexed, same⟩ := exists_ok_of_any computed
  cases eq_of_beq same
  refine ⟨_, lexed, by decide +kernel, fun kept => ?_⟩
  exact (render_round_trip lexed).mp kept [.token "a"] ⟨2, some 2, false⟩ [] rfl (by decide +kernel)

end Lexeme

end ValueGrammar
