import ValueGrammar.Proofs.Text.Enclosing
import ValueGrammar.Value.Fragments

/-!
Where values are cut. Separators leave the nesting of a scanner alone, so the runs between the cuts
of a text are scanned each for itself. A fragment is a text that is not cut; it is closed if a
scanner is outside quotes and parentheses behind it, as it is behind words, numbers and calls.
-/
namespace ValueGrammar

open Unicode Text

/-! ### Separators leave the nesting alone -/

namespace Nesting

theorem outside_quoted : QuoteIsQuote Nesting.outside := by
  intro q opened
  cases opened

theorem after_quoted {nesting : Nesting} (quoted : QuoteIsQuote nesting) (cs : List Char) :
    QuoteIsQuote (nesting.after cs) := by
  induction cs generalizing nesting with
  | nil => exact quoted
  | cons c cs ih => exact ih (quoted.advance c)

theorem advance_separator {nesting : Nesting} (quoted : QuoteIsQuote nesting) {c : Char}
    {s : Separator} (found : Separator.ofChar? c = some s) : nesting.advance c = nesting := by
  have inert (plain : isQuote c = false) (notOpening : c ≠ '(') (notClosing : c ≠ ')') :
      nesting.advance c = nesting := by
    unfold advance
    split
    · next quote inside =>
      have different : c ≠ quote := by
        intro same
        subst same
        rw [quoted c inside] at plain
        cases plain
      rw [if_neg different]
    · simp [plain, notOpening, notClosing]
  by_cases comma : c = ','
  · subst comma
    exact inert (by decide) (by decide) (by decide)
  · by_cases slash : c = '/'
    · subst slash
      exact inert (by decide) (by decide) (by decide)
    · have blank : isBlank c = true := by
        by_contra solid
        simp [Separator.ofChar?, comma, slash, solid] at found
      exact advance_blank quoted blank

theorem after_blanks {nesting : Nesting} (quoted : QuoteIsQuote nesting) {cs : List Char}
    (blank : ∀ c ∈ cs, isBlank c = true) : nesting.after cs = nesting := by
  induction cs with
  | nil => rfl
  | cons c cs ih =>
    change (nesting.advance c).after cs = nesting
    rw [advance_blank quoted (blank c List.mem_cons_self)]
    exact ih fun d member => blank d (List.mem_cons_of_mem c member)

end Nesting

namespace Separator

theorem ofChar?_isSome_of_isBlank {c : Char} (blank : isBlank c = true) :
    (ofChar? c).isSome = true := by
  unfold ofChar?
  rw [if_pos blank]
  split
  · rfl
  · split <;> rfl

/-- A character that is no separator is not blank. -/
theorem isBlank_of_ofChar? {c : Char} (solid : ofChar? c = none) : isBlank c = false := by
  by_contra blank
  have some := ofChar?_isSome_of_isBlank (by simpa using blank)
  rw [solid] at some
  cases some

theorem mem_all (s : Separator) : s ∈ all := by
  cases s <;> decide

end Separator

namespace Fragments

variable {boundaries : List Separator} {nesting : Nesting}

/-! ### Cuts -/

theorem boundary?_eq_some {c : Char} {s : Separator}
    (found : boundary? boundaries nesting c = some s) :
    nesting = Nesting.outside ∧ Separator.ofChar? c = some s ∧ s ∈ boundaries := by
  unfold boundary? at found
  split at found
  · next outside =>
    obtain ⟨isSeparator, inside⟩ := Option.filter_eq_some_iff.mp found
    exact ⟨outside, isSeparator, List.contains_iff_mem.mp inside⟩
  · cases found

theorem boundary?_inside (inside : nesting ≠ Nesting.outside) (c : Char) :
    boundary? boundaries nesting c = none := by
  rw [boundary?, if_neg inside]

theorem boundary?_of_ofChar? {c : Char} (solid : Separator.ofChar? c = none) :
    boundary? boundaries nesting c = none := by
  unfold boundary?
  rw [solid]
  split <;> rfl

theorem boundary?_outside {c : Char} {s : Separator} (found : Separator.ofChar? c = some s)
    (inside : s ∈ boundaries) : boundary? boundaries Nesting.outside c = some s := by
  rw [boundary?, if_pos rfl, found]
  simp [inside]

theorem boundary?_excluded {c : Char} {s : Separator} (found : Separator.ofChar? c = some s)
    (excluded : s ∉ boundaries) : boundary? boundaries nesting c = none := by
  unfold boundary?
  rw [found]
  split
  · simp [excluded]
  · rfl

theorem cut_boundary {c : Char} {s : Separator}
    (found : boundary? boundaries nesting c = some s) (cs : List Char) :
    cut boundaries nesting (c :: cs) = ([], (s, (cut boundaries Nesting.outside cs).1) ::
      (cut boundaries Nesting.outside cs).2) := by
  obtain ⟨rfl, -, -⟩ := boundary?_eq_some found
  simp only [cut, found]

theorem cut_solid {c : Char} (solid : boundary? boundaries nesting c = none) (cs : List Char) :
    cut boundaries nesting (c :: cs) = (c :: (cut boundaries (nesting.advance c) cs).1,
      (cut boundaries (nesting.advance c) cs).2) := by
  simp only [cut, solid]

/-- No separator of a text cuts it, when a scanner comes to it with a nesting. -/
def Uncut (boundaries : List Separator) (nesting : Nesting) (cs : List Char) : Prop :=
  cut boundaries nesting cs = (cs, [])

instance (boundaries : List Separator) (nesting : Nesting) (cs : List Char) :
    Decidable (Uncut boundaries nesting cs) :=
  inferInstanceAs (Decidable (_ = _))

theorem uncut_nil : Uncut boundaries nesting [] := rfl

theorem uncut_cons_iff {c : Char} {cs : List Char} :
    Uncut boundaries nesting (c :: cs) ↔ boundary? boundaries nesting c = none ∧
      Uncut boundaries (nesting.advance c) cs := by
  unfold Uncut
  cases found : boundary? boundaries nesting c with
  | some s =>
    rw [cut_boundary found]
    simp
  | none =>
    rw [cut_solid found]
    simp [Prod.ext_iff]

/-- Cutting goes on behind a text that is not cut. -/
theorem cut_append {front : List Char} (uncut : Uncut boundaries nesting front)
    (rest : List Char) :
    cut boundaries nesting (front ++ rest) =
      (front ++ (cut boundaries (nesting.after front) rest).1,
        (cut boundaries (nesting.after front) rest).2) := by
  induction front generalizing nesting with
  | nil => rfl
  | cons c front ih =>
    obtain ⟨solid, later⟩ := uncut_cons_iff.mp uncut
    rw [List.cons_append, cut_solid solid, ih later]
    rfl

theorem uncut_append_iff {front rest : List Char} :
    Uncut boundaries nesting (front ++ rest) ↔ Uncut boundaries nesting front ∧
      Uncut boundaries (nesting.after front) rest := by
  induction front generalizing nesting with
  | nil => simp [uncut_nil, Nesting.after]
  | cons c front ih =>
    rw [List.cons_append, uncut_cons_iff, uncut_cons_iff, ih, and_assoc]
    rfl

/-- The runs between the cuts of a text are not cut themselves, and all but the last are closed. -/
theorem cut_runs (boundaries : List Separator) (nesting : Nesting) (cs : List Char) :
    Uncut boundaries nesting (cut boundaries nesting cs).1 ∧
      ((cut boundaries nesting cs).2 ≠ [] →
        nesting.after (cut boundaries nesting cs).1 = Nesting.outside) ∧
      (∀ run ∈ (cut boundaries nesting cs).2, run.1 ∈ boundaries ∧
        Uncut boundaries Nesting.outside run.2) ∧
      ∀ run ∈ (cut boundaries nesting cs).2.dropLast,
        Nesting.outside.after run.2 = Nesting.outside := by
  induction cs generalizing nesting with
  | nil => simp [cut, uncut_nil]
  | cons c cs ih =>
    cases found : boundary? boundaries nesting c with
    | none =>
      obtain ⟨uncut, closed, later, closedLater⟩ := ih (nesting.advance c)
      rw [cut_solid found]
      exact ⟨uncut_cons_iff.mpr ⟨found, uncut⟩, closed, later, closedLater⟩
    | some s =>
      obtain ⟨uncut, closed, later, closedLater⟩ := ih Nesting.outside
      obtain ⟨rfl, -, inside⟩ := boundary?_eq_some found
      rw [cut_boundary found]
      refine ⟨uncut_nil, fun _ => rfl, ?_, ?_⟩
      · intro run member
        rcases List.mem_cons.mp member with rfl | behind
        · exact ⟨inside, uncut⟩
        · exact later run behind
      · intro run member
        cases rest : (cut boundaries Nesting.outside cs).2 with
        | nil =>
          rw [rest] at member
          cases member
        | cons next others =>
          rw [rest, List.dropLast_cons_cons] at member
          rcases List.mem_cons.mp member with rfl | behind
          · exact closed (by simp [rest])
          · exact closedLater run (rest ▸ behind)

/-- A text is closed if every run between its cuts is. -/
theorem after_cut_iff (boundaries : List Separator) (nesting : Nesting) (cs : List Char) :
    nesting.after cs = Nesting.outside ↔
      nesting.after (cut boundaries nesting cs).1 = Nesting.outside ∧
        ∀ run ∈ (cut boundaries nesting cs).2,
          Nesting.outside.after run.2 = Nesting.outside := by
  induction cs generalizing nesting with
  | nil => simp [cut]
  | cons c cs ih =>
    change (nesting.advance c).after cs = Nesting.outside ↔ _
    cases found : boundary? boundaries nesting c with
    | none =>
      rw [cut_solid found, ih]
      rfl
    | some s =>
      obtain ⟨rfl, isSeparator, -⟩ := boundary?_eq_some found
      rw [cut_boundary found, Nesting.advance_separator Nesting.outside_quoted isSeparator, ih]
      simp [Nesting.after]

/-! ### Fragments -/

/-- A text behind which a scanner that was outside quotes and parentheses is outside again. -/
def Closed (cs : List Char) : Prop :=
  Nesting.outside.after cs = Nesting.outside

instance (cs : List Char) : Decidable (Closed cs) :=
  inferInstanceAs (Decidable (_ = _))

/-- A text that stands in a value as one fragment. -/
structure IsFragment (boundaries : List Separator) (cs : List Char) : Prop where
  nonempty : cs ≠ []
  trimmed : trimChars cs = cs
  uncut : Uncut boundaries Nesting.outside cs

instance (boundaries : List Separator) (cs : List Char) :
    Decidable (IsFragment boundaries cs) :=
  decidable_of_iff (cs ≠ [] ∧ trimChars cs = cs ∧ Uncut boundaries Nesting.outside cs)
    ⟨fun h => ⟨h.1, h.2.1, h.2.2⟩, fun h => ⟨h.nonempty, h.trimmed, h.uncut⟩⟩

/-! ### Plain texts and calls -/

/-- Characters that neither separate nor quote nor enclose. -/
def isPlain (c : Char) : Bool :=
  (Separator.ofChar? c).isNone && !isQuote c && c != '(' && c != ')'

theorem isPlain_iff {c : Char} :
    isPlain c = true ↔
      Separator.ofChar? c = none ∧ isQuote c = false ∧ c ≠ '(' ∧ c ≠ ')' := by
  simp [isPlain, and_assoc]

theorem isPlain_of_isIdentifierChar {c : Char} (letter : isIdentifierChar c = true) :
    isPlain c = true := by
  have solid := isBlank_of_isIdentifierChar letter
  have different {d : Char} (strange : isIdentifierChar d = false) : c ≠ d := by
    intro same
    subst same
    rw [letter] at strange
    cases strange
  have notQuote : isQuote c = false := by
    rw [isQuote, Bool.or_eq_false_iff, beq_eq_false_iff_ne, beq_eq_false_iff_ne]
    exact ⟨different (by decide +kernel), different (by decide +kernel)⟩
  rw [isPlain_iff, Separator.ofChar?, if_neg (different (by decide +kernel)),
    if_neg (different (by decide +kernel)), if_neg (by simp [solid])]
  exact ⟨rfl, notQuote, different (by decide +kernel), different (by decide +kernel)⟩

theorem uncut_plain (boundaries : List Separator) {cs : List Char}
    (plain : ∀ c ∈ cs, isPlain c = true) :
    Uncut boundaries Nesting.outside cs ∧ Closed cs := by
  induction cs with
  | nil => exact ⟨uncut_nil, rfl⟩
  | cons c cs ih =>
    obtain ⟨solid, notQuote, notOpening, notClosing⟩ := isPlain_iff.mp (plain c List.mem_cons_self)
    have stays : Nesting.outside.advance c = Nesting.outside := by
      simp [Nesting.advance, Nesting.outside, notQuote, notOpening, notClosing]
    obtain ⟨uncut, closed⟩ := ih fun d member => plain d (List.mem_cons_of_mem c member)
    constructor
    · rw [uncut_cons_iff, stays]
      exact ⟨boundary?_of_ofChar? solid, uncut⟩
    · change (Nesting.outside.advance c).after cs = Nesting.outside
      rw [stays]
      exact closed

theorem trimChars_of_solid_ends {cs : List Char}
    (solid : ∀ c, c ∈ cs.head? ∨ c ∈ cs.getLast? → isBlank c = false) : trimChars cs = cs := by
  apply trimChars_eq_self
  · exact fun c first => solid c (Or.inl first)
  · intro c last
    rw [List.head?_reverse] at last
    exact solid c (Or.inr last)

/-- A text of plain characters is a closed fragment. -/
theorem isFragment_plain (boundaries : List Separator) {cs : List Char} (nonempty : cs ≠ [])
    (plain : ∀ c ∈ cs, isPlain c = true) : IsFragment boundaries cs ∧ Closed cs := by
  obtain ⟨uncut, closed⟩ := uncut_plain boundaries plain
  refine ⟨⟨nonempty, ?_, uncut⟩, closed⟩
  apply trimChars_of_solid_ends
  intro c atEnd
  have member : c ∈ cs := by
    rcases atEnd with first | last
    · exact List.mem_of_mem_head? first
    · exact List.mem_of_mem_getLast? last
  exact Separator.isBlank_of_ofChar? (isPlain_iff.mp (plain c member)).1

/-- One parenthesis further in, a scanner goes on alike, up to the one that closes it. -/
theorem advance_deeper {nesting : Nesting} {c : Char}
    (goes : ¬(c = ')' ∧ nesting = Nesting.outside)) :
    (Nesting.mk nesting.quote? (nesting.depth + 1)).advance c =
      ⟨(nesting.advance c).quote?, (nesting.advance c).depth + 1⟩ := by
  obtain ⟨quote?, depth⟩ := nesting
  cases quote? with
  | some quote =>
    simp only [Nesting.advance]
    split <;> rfl
  | none =>
    simp only [Nesting.advance]
    split
    · rfl
    · split
      · rfl
      · split
        · next closing =>
          have positive : depth ≠ 0 := fun zero => goes ⟨closing, by rw [zero]; rfl⟩
          simp only [Nesting.mk.injEq, true_and]
          omega
        · rfl

/-- The parenthesis that ends enclosed arguments closes what was opened before them, and nothing in
between is cut. -/
theorem uncut_enclosed (boundaries : List Separator) {nesting : Nesting}
    {cs inner rest : List Char}
    (read : enclosed? nesting cs = some (inner, rest)) :
    Uncut boundaries ⟨nesting.quote?, nesting.depth + 1⟩ (inner ++ [')']) ∧
      (Nesting.mk nesting.quote? (nesting.depth + 1)).after (inner ++ [')']) =
        Nesting.outside := by
  have inside (depth : Nat) (quote? : Option Char) :
      (⟨quote?, depth + 1⟩ : Nesting) ≠ Nesting.outside := by
    simp [Nesting.outside]
  induction cs generalizing nesting inner with
  | nil => cases read
  | cons c cs ih =>
    unfold enclosed? at read
    split at read
    · next stop =>
      cases read
      obtain ⟨rfl, rfl⟩ := stop
      exact ⟨uncut_cons_iff.mpr ⟨boundary?_inside (inside _ _) _, uncut_nil⟩, rfl⟩
    · next go =>
      obtain ⟨⟨within, beyond⟩, found, eq⟩ := Option.map_eq_some_iff.mp read
      simp only [Prod.mk.injEq] at eq
      obtain ⟨rfl, rfl⟩ := eq
      have deeper := advance_deeper go
      obtain ⟨uncut, closed⟩ := ih found
      rw [List.cons_append, uncut_cons_iff, deeper]
      refine ⟨⟨boundary?_inside (inside _ _) _, uncut⟩, ?_⟩
      change ((Nesting.mk nesting.quote? (nesting.depth + 1)).advance c).after
        (within ++ [')']) = Nesting.outside
      rw [deeper, closed]

/-- A call is a closed fragment. -/
theorem isFragment_call (boundaries : List Separator) {cs : List Char} {call : Call}
    (read : call? cs = some (call, [])) :
    IsFragment boundaries cs ∧ Closed cs := by
  obtain ⟨after, word, arguments⟩ := call?_eq_some_iff.mp read
  obtain ⟨name, nonempty⟩ := identifier?_eq_some word
  have letters := letters_of_identifier? word
  have plain : ∀ c ∈ call.name, isPlain c = true := fun c member =>
    isPlain_of_isIdentifierChar (letters c member)
  have spelled : cs = call.chars := by
    rw [call?_eq_some read, List.append_nil]
  have whole := spelled
  rw [Call.chars, List.append_assoc, List.cons_append] at whole
  obtain ⟨uncutName, closedName⟩ := uncut_plain boundaries plain
  obtain ⟨uncutRest, closedRest⟩ := uncut_enclosed boundaries arguments
  have opens : Nesting.outside.advance '(' = ⟨none, 0 + 1⟩ := rfl
  have uncut : Uncut boundaries Nesting.outside cs := by
    rw [whole, uncut_append_iff, closedName, uncut_cons_iff, opens]
    exact ⟨uncutName, boundary?_of_ofChar? (by decide), uncutRest⟩
  have closed : Closed cs := by
    unfold Closed
    rw [whole, Nesting.after_append, closedName]
    exact closedRest
  obtain ⟨first, last⟩ := call_stops call nonempty letters
  rw [← spelled] at first last
  exact ⟨⟨by simp [whole], trimChars_eq_self first last, uncut⟩, closed⟩

end Fragments

end ValueGrammar
