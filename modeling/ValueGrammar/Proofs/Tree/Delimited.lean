import ValueGrammar.Proofs.Tree.Grafting

/-!
Rows of operands. Brackets keep a run together, and so does the lack of delimiters: a run that has
outside brackets no delimiter of a combinator that binds no tighter is one operand of the combinator.
The tree of a row of operands is made of their trees.
-/
namespace ValueGrammar

namespace Combinator

def delimiter : Combinator → List Lexeme
  | list => [.comma]
  | choice => [.bar]
  | someOf => [.doubleBar]
  | allOf => [.doubleAmpersand]
  | sequence => []

/-- The delimiters of the combinators that bind no tighter than one. -/
def loose : Combinator → List Lexeme
  | list => [.comma]
  | choice => [.comma, .bar]
  | someOf => [.comma, .bar, .doubleBar]
  | allOf => [.comma, .bar, .doubleBar, .doubleAmpersand]
  | sequence => [.comma, .bar, .doubleBar, .doubleAmpersand]

end Combinator

namespace Tree

theorem ofLexemes_eq_ok {items : List Lexeme} {tree : Tree} :
    ofLexemes items = .ok tree ↔ isBalanced 0 items = true ∧ ofBalanced items = .ok tree := by
  unfold ofLexemes
  split
  · next balanced =>
    constructor
    · intro built
      exact ⟨balanced, built⟩
    · intro both
      exact both.2
  · next unbalanced =>
    constructor
    · intro built
      cases built
    · intro both
      exact absurd both.1 unbalanced

/-! ### Sequences -/

structure Part.Reads (part : Part) (tree : Tree) : Prop where
  sound : part.core.IsSound
  built : part.tree = .ok tree

theorem reads_brackets {items : List Lexeme} {tree : Tree} (built : ofLexemes items = .ok tree)
    (multipliers : List Multiplier) :
    Part.Reads ⟨.brackets items, multipliers⟩ (underMultipliers tree multipliers) := by
  obtain ⟨balanced, read⟩ := ofLexemes_eq_ok.mp built
  refine ⟨balanced, ?_⟩
  rw [Part.tree, Core.tree, read]
  rfl

theorem isBalanced_parts {found : List Part} (sound : ∀ part ∈ found, part.core.IsSound)
    (rest : List Lexeme) : isBalanced 0 (found.flatMap Part.lexemes ++ rest) = isBalanced 0 rest := by
  induction found with
  | nil => rfl
  | cons part found ih =>
    rw [List.flatMap_cons, Part.lexemes, List.append_assoc, List.append_assoc,
      isBalanced_lexemes (sound part List.mem_cons_self), isBalanced_multipliers]
    exact ih fun other later => sound other (List.mem_cons_of_mem _ later)

theorem sound_of_reads {found : List Part} {trees : List Tree}
    (each : List.Forall₂ Part.Reads found trees) : ∀ part ∈ found, part.core.IsSound := by
  intro part member
  obtain ⟨tree, -, reads⟩ := exists_mem_of_forall₂ each member
  exact reads.sound

/-- The tree of a row of operands. -/
theorem ofLexemes_row {found : List Part} {trees : List Tree}
    (each : List.Forall₂ Part.Reads found trees) :
    ofLexemes (found.flatMap Part.lexemes) = .ok (ofSequence trees) := by
  have sound := sound_of_reads each
  have balanced := isBalanced_parts sound []
  rw [List.append_nil] at balanced
  have built := each.imp fun _ _ reads => reads.built
  exact ofLexemes_eq_ok.mpr ⟨balanced, ofBalanced_sequence sound built⟩

/-- A run that is read as one operand has the tree of the operand. -/
theorem exists_reads {items : List Lexeme} {tree : Tree} (built : ofLexemes items = .ok tree)
    {part : Part} (read : parts items = .ok [part]) :
    ∃ own, items = part.lexemes ∧ part.Reads own := by
  obtain ⟨balanced, within⟩ := ofLexemes_eq_ok.mp built
  obtain ⟨whole, sound⟩ := parts_spec balanced read
  have uncut := split?_parts sound
  rw [← whole] at uncut
  rcases ofBalanced_eq_ok within with ⟨kind, runs, trees, cut, -⟩ | ⟨found, trees, -, read', each, -⟩
  · rw [uncut] at cut
    cases cut
  · rw [read] at read'
    cases read'
    cases each with
    | cons here none =>
      exact ⟨_, by rw [whole, List.flatMap_singleton], sound part List.mem_cons_self, here⟩

/-! ### Runs between delimiters -/

/-- Whether a run with balanced brackets has none of some delimiters outside brackets. -/
structure IsWhole (delimiters run : List Lexeme) : Prop where
  balanced : isBalanced 0 run = true
  uncut : ∀ delimiter ∈ delimiters, operands delimiter 0 run = [run]

theorem operands_append {delimiter : Lexeme} {depth : Nat} {run : List Lexeme}
    (balanced : isBalanced depth run = true) (uncut : operands delimiter depth run = [run])
    (rest : List Lexeme) :
    operands delimiter depth (run ++ rest) = run.foldr consFirst (operands delimiter 0 rest) := by
  induction run generalizing depth with
  | nil =>
    have outside : depth = 0 := by simpa [isBalanced] using balanced
    rw [outside]
    rfl
  | cons x run ih =>
    obtain ⟨-, behind⟩ := (isBalanced_cons ..).mp balanced
    have kept : ¬ (depth = 0 ∧ x = delimiter) := by
      intro cut
      rw [operands, if_pos cut] at uncut
      cases (List.cons.inj uncut).1
    rw [operands, if_neg kept] at uncut
    have later : operands delimiter (depthAfter depth x) run = [run] := by
      cases runs : operands delimiter (depthAfter depth x) run with
      | nil => exact absurd runs (operands_ne_nil _ _ _)
      | cons first others =>
        rw [runs, consFirst, List.cons.injEq, List.cons.injEq] at uncut
        rw [uncut.1.2, uncut.2]
    rw [List.cons_append, operands, if_neg kept, ih behind later, List.foldr_cons]

variable {delimiter : Lexeme} {runs : List (List Lexeme)}

/-- The delimiter between whole runs cuts a row into the runs. -/
theorem operands_intercalate (nonempty : runs ≠ []) (each : ∀ run ∈ runs, IsWhole [delimiter] run) :
    operands delimiter 0 ([delimiter].intercalate runs) = runs := by
  induction runs with
  | nil => exact absurd rfl nonempty
  | cons run runs ih =>
    have here := each run List.mem_cons_self
    have uncut := here.uncut delimiter List.mem_cons_self
    cases runs with
    | nil => rw [List.intercalate_singleton, uncut]
    | cons next runs =>
      have later := ih (List.cons_ne_nil _ _) fun other inside =>
        each other (List.mem_cons_of_mem _ inside)
      rw [List.intercalate_cons_cons, List.append_assoc, operands_append here.balanced uncut,
        List.singleton_append, operands_delimiter, later, foldr_consFirst, List.append_nil]

/-- A row of whole runs is whole for the other delimiters. -/
theorem isWhole_intercalate {others : List Lexeme} (known : delimiter ∈ delimiters)
    (different : delimiter ∉ others) (each : ∀ run ∈ runs, IsWhole others run) :
    IsWhole others ([delimiter].intercalate runs) := by
  have plain := not_bracket_of_delimiter known
  have level : depthAfter 0 delimiter = 0 := by
    cases delimiter with
    | opening => exact absurd rfl plain.1
    | _ => rfl
  induction runs with
  | nil => exact ⟨rfl, fun _ _ => rfl⟩
  | cons run runs ih =>
    have here := each run List.mem_cons_self
    cases runs with
    | nil =>
      rw [List.intercalate_singleton]
      exact here
    | cons next runs =>
      have later := ih fun other inside => each other (List.mem_cons_of_mem _ inside)
      rw [List.intercalate_cons_cons, List.append_assoc, List.singleton_append]
      constructor
      · rw [← Nat.add_zero 0, isBalanced_append here.balanced, isBalanced_cons, level]
        exact ⟨fun closing => absurd closing plain.2, later.balanced⟩
      · intro other member
        have apart : delimiter ≠ other := by
          rintro rfl
          exact different member
        rw [operands_append here.balanced (here.uncut other member), operands_cons apart, level,
          later.uncut other member, consFirst, foldr_consFirst]

theorem IsWhole.alone {delimiters run : List Lexeme} (whole : IsWhole delimiters run)
    (member : delimiter ∈ delimiters) : IsWhole [delimiter] run := by
  refine ⟨whole.balanced, fun other alone => ?_⟩
  rw [List.mem_singleton.mp alone]
  exact whole.uncut delimiter member

/-- A row of operands of a combinator is cut at its delimiter, since the delimiters that bind less do
not stand outside brackets. -/
theorem split?_intercalate {kind : Combinator × Lexeme} (known : kind ∈ Combinator.delimited)
    (several : 2 ≤ runs.length) (each : ∀ run ∈ runs, IsWhole kind.1.loose run) :
    split? ([kind.2].intercalate runs) = some (kind, runs) := by
  have nonempty : runs ≠ [] := by
    rintro rfl
    simp at several
  have own : ∀ kind ∈ Combinator.delimited, kind.2 ∈ kind.1.loose := by decide
  have cut := operands_intercalate nonempty fun run member =>
    (each run member).alone (own kind known)
  -- The delimiters are tried in the order of the list, so those in front of this one must not cut.
  have uncut (other : Lexeme) (bindsLess : other ∈ kind.1.loose) (different : kind.2 ≠ other) :
      operands other 0 ([kind.2].intercalate runs) = [[kind.2].intercalate runs] := by
    have apart : kind.2 ∉ [other] := by simpa using different
    have whole := isWhole_intercalate (List.mem_map_of_mem known) apart fun run member =>
      (each run member).alone bindsLess
    exact whole.uncut other List.mem_cons_self
  simp only [Combinator.delimited, List.mem_cons, List.not_mem_nil, or_false] at known
  rcases known with rfl | rfl | rfl | rfl <;>
    simp_all [split?, Combinator.delimited, Combinator.loose]

/-! ### Operands -/

/-- A run is an operand of a combinator, with a tree: a part of a sequence, or a run without a
delimiter outside brackets of any combinator that binds no tighter. -/
def IsOperand (combinator : Combinator) (items : List Lexeme) (tree : Tree) : Prop :=
  match combinator with
  | .sequence => ∃ part, items = Part.lexemes part ∧ part.Reads tree
  | combinator => items ≠ [] ∧ ofLexemes items = .ok tree ∧ IsWhole combinator.loose items

/-- The tree of a row of operands. A single one stands for itself. -/
def ofOperands : Combinator → List Tree → Tree
  | .sequence, trees => ofSequence trees
  | _, [tree] => tree
  | combinator, trees => group combinator trees

theorem ofOperands_cons_cons (combinator : Combinator) (first second : Tree) (trees : List Tree) :
    ofOperands combinator (first :: second :: trees) = group combinator (first :: second :: trees) := by
  cases combinator with
  | sequence => exact ofSequence_cons_cons first second trees
  | _ => rfl

theorem ofOperands_singleton {combinator : Combinator} {tree : Tree}
    (solid : ∀ s, tree ≠ separator s) : ofOperands combinator [tree] = tree := by
  cases combinator with
  | sequence => exact ofSequence_singleton solid
  | _ => rfl

/-- The tree of a row of operands between delimiters. -/
theorem ofLexemes_delimited {kind : Combinator × Lexeme} (known : kind ∈ Combinator.delimited)
    {trees : List Tree} (several : 2 ≤ runs.length)
    (each : List.Forall₂ (fun run tree =>
      run ≠ [] ∧ ofLexemes run = .ok tree ∧ IsWhole kind.1.loose run) runs trees) :
    ofLexemes ([kind.2].intercalate runs) = .ok (group kind.1 trees) := by
  have whole : ∀ run ∈ runs, run ≠ [] ∧ IsWhole kind.1.loose run := by
    intro run member
    obtain ⟨tree, -, solid, -, whole⟩ := exists_mem_of_forall₂ each member
    exact ⟨solid, whole⟩
  have balanced : IsWhole [] ([kind.2].intercalate runs) :=
    isWhole_intercalate (List.mem_map_of_mem known) List.not_mem_nil fun run member =>
      ⟨(whole run member).2.balanced, fun _ none => by cases none⟩
  apply ofLexemes_eq_ok.mpr
  refine ⟨balanced.balanced, ?_⟩
  apply ofBalanced_group (split?_intercalate known several fun run member => (whole run member).2)
  · intro empty
    exact (whole [] empty).1 rfl
  · exact each.imp fun _ _ operand => (ofLexemes_eq_ok.mp operand.2.1).2

theorem intercalate_nothing {α : Type} (xss : List (List α)) : [].intercalate xss = xss.flatten := by
  induction xss with
  | nil => rfl
  | cons xs xss ih =>
    cases xss with
    | nil => simp
    | cons ys xss =>
      rw [List.intercalate_cons_cons, ih, List.append_nil]
      rfl

theorem exists_parts {trees : List Tree} (each : List.Forall₂ (IsOperand .sequence) runs trees) :
    ∃ found, runs = found.map Part.lexemes ∧ List.Forall₂ Part.Reads found trees := by
  induction each with
  | nil => exact ⟨[], rfl, .nil⟩
  | cons here others ih =>
    obtain ⟨part, rfl, reads⟩ := here
    obtain ⟨found, rfl, later⟩ := ih
    exact ⟨part :: found, rfl, .cons reads later⟩

/-- A row of operands has the tree made of theirs. -/
theorem ofLexemes_operands {combinator : Combinator} {trees : List Tree} (nonempty : runs ≠ [])
    (each : List.Forall₂ (IsOperand combinator) runs trees) :
    ofLexemes (combinator.delimiter.intercalate runs) = .ok (ofOperands combinator trees) := by
  -- A sequence has no delimiter: its row is cut into parts. All other rows are cut in one way.
  have delimited (delimiter : Lexeme) (known : (combinator, delimiter) ∈ Combinator.delimited)
      (operands : List.Forall₂ (fun run tree => run ≠ [] ∧ ofLexemes run = .ok tree ∧
        IsWhole combinator.loose run) runs trees) :
      ofLexemes ([delimiter].intercalate runs) = .ok (ofOperands combinator trees) := by
    cases operands with
    | nil => exact absurd rfl nonempty
    | cons here others =>
      cases others with
      | nil =>
        have solid := ofBalanced_ne_separator (ofLexemes_eq_ok.mp here.2.1).2
        rw [List.intercalate_singleton, ofOperands_singleton solid]
        exact here.2.1
      | cons next others =>
        rw [ofOperands_cons_cons]
        exact ofLexemes_delimited known (by simp) (.cons here (.cons next others))
  cases combinator with
  | sequence =>
    obtain ⟨found, rfl, reads⟩ := exists_parts each
    rw [Combinator.delimiter, intercalate_nothing, ← List.flatMap_def]
    exact ofLexemes_row reads
  | list => exact delimited .comma (by decide) each
  | choice => exact delimited .bar (by decide) each
  | someOf => exact delimited .doubleBar (by decide) each
  | allOf => exact delimited .doubleAmpersand (by decide) each

theorem mem_delimiters_of_loose (combinator : Combinator) :
    ∀ delimiter ∈ combinator.loose, delimiter ∈ delimiters := by
  cases combinator <;> decide

/-- A row of parts is not cut at delimiters. -/
theorem isWhole_parts {found : List Part} (sound : ∀ part ∈ found, part.core.IsSound) :
    IsWhole delimiters (found.flatMap Part.lexemes) := by
  refine ⟨?_, fun delimiter member => ?_⟩
  · have balanced := isBalanced_parts sound []
    rw [List.append_nil] at balanced
    exact balanced
  · have cut := operands_parts member sound 0 []
    rw [List.append_nil, operands, foldr_consFirst, List.append_nil] at cut
    exact cut

theorem Part.lexemes_ne_nil (part : Part) : part.lexemes ≠ [] := by
  intro empty
  exact Tree.lexemes_ne_nil part.core (List.append_eq_nil_iff.mp empty).1

/-- A part is an operand of every combinator, unless it is a bare separator. -/
theorem isOperand_part {part : Part} {tree : Tree} (reads : part.Reads tree)
    (solid : ∀ s, tree ≠ separator s) (combinator : Combinator) :
    IsOperand combinator part.lexemes tree := by
  have each : List.Forall₂ Part.Reads [part] [tree] := .cons reads .nil
  have alone := ofLexemes_row each
  have whole := isWhole_parts (sound_of_reads each)
  rw [List.flatMap_singleton] at alone whole
  rw [ofSequence_singleton solid] at alone
  have operand := And.intro part.lexemes_ne_nil (And.intro alone
    (IsWhole.mk whole.balanced fun delimiter member =>
      whole.uncut delimiter (mem_delimiters_of_loose combinator delimiter member)))
  cases combinator with
  | sequence => exact ⟨part, rfl, reads⟩
  | _ => exact operand

/-- A bracketed run is an operand of every combinator. -/
theorem isOperand_brackets {items : List Lexeme} {tree : Tree} (built : ofLexemes items = .ok tree)
    (combinator : Combinator) : IsOperand combinator (Core.brackets items).lexemes tree := by
  have solid := ofBalanced_ne_separator (ofLexemes_eq_ok.mp built).2
  have operand := isOperand_part (reads_brackets built []) solid combinator
  rw [Part.lexemes, List.map_nil, List.append_nil] at operand
  exact operand

/-- A run forms an operand of a combinator: it has a tree, outside brackets it has no delimiter of a
combinator that binds no tighter, and in a sequence it is a single part. -/
structure FormsOperand (combinator : Combinator) (items : List Lexeme) : Prop where
  accepted : ∃ tree, ofLexemes items = .ok tree
  nonempty : items ≠ []
  undivided : ∀ delimiter ∈ combinator.loose, operands delimiter 0 items = [items]
  single : combinator = .sequence → ∃ part, parts items = .ok [part]

theorem FormsOperand.exists_isOperand {combinator : Combinator} {items : List Lexeme}
    (forms : FormsOperand combinator items) : ∃ tree, IsOperand combinator items tree := by
  obtain ⟨tree, built⟩ := forms.accepted
  have operand := And.intro forms.nonempty (And.intro built
    (IsWhole.mk (ofLexemes_eq_ok.mp built).1 forms.undivided))
  cases combinator with
  | sequence =>
    obtain ⟨part, read⟩ := forms.single rfl
    obtain ⟨own, whole, reads⟩ := exists_reads built read
    exact ⟨own, part, whole, reads⟩
  | _ => exact ⟨tree, operand⟩

end Tree

end ValueGrammar
