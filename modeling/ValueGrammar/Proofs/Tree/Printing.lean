import ValueGrammar.Proofs.Lexeme.Written
import ValueGrammar.Proofs.Tree.Delimited
import ValueGrammar.Proofs.Tree.Subtrees

/-!
Trees in the form that the reader gives them, and how such a tree is written with as few brackets as
its combinators need. The reader makes no other trees, and it reads each of them back from what it
is written as.
-/
namespace ValueGrammar

open Separator (slash)

namespace Combinator

def tightness : Combinator → Nat
  | list => 0
  | choice => 1
  | someOf => 2
  | allOf => 3
  | sequence => 4

/-- The operands that a combinator may have. A bare separator is an operand of a sequence only; a
sequence of one operand is one of a bare slash, and all others have no operand or several. -/
def Takes : Combinator → List Tree → Prop
  | .sequence, children => children = [] ∨ children = [.separator slash] ∨ 2 ≤ children.length
  | _, children => 2 ≤ children.length ∧ ∀ s, .separator s ∉ children

theorem Takes.several {combinator : Combinator} {children : List Tree}
    (takes : combinator.Takes children) (delimited : combinator ≠ .sequence) :
    2 ≤ children.length ∧ ∀ s, .separator s ∉ children := by
  cases combinator with
  | sequence => exact absurd rfl delimited
  | _ => exact takes

end Combinator

namespace Tree

/-! ### Normal trees -/

/-- Trees whose only separators are slashes, and whose groups have operands that suit them. -/
structure IsFormed (tree : Tree) : Prop where
  slashes : ∀ s, .separator s ∈ tree.leaves → s = slash
  groups : ∀ combinator children, group combinator children ∈ tree.subtrees →
    combinator.Takes children

/-- Trees as the reader makes them: a bare separator is none. -/
structure IsNormal (tree : Tree) : Prop extends IsFormed tree where
  solid : ∀ s, tree ≠ separator s

theorem mem_childSubtrees {trees : List Tree} {inside : Tree} :
    inside ∈ childSubtrees trees ↔ ∃ tree ∈ trees, inside ∈ tree.subtrees := by
  induction trees with
  | nil => simp [childSubtrees]
  | cons tree trees ih => simp [childSubtrees, ih]

theorem isFormed_token (text : String) : (token text).IsFormed := by
  constructor
  · intro s member
    simp [leaves] at member
  · intro combinator children member
    simp [subtrees] at member

theorem isFormed_slash : (separator slash).IsFormed := by
  constructor
  · intro s member
    simpa [leaves] using member
  · intro combinator children member
    simp [subtrees] at member

theorem isFormed_repeated {body : Tree} {m : Multiplier} :
    (repeated body m).IsFormed ↔ body.IsFormed := by
  constructor
  · intro formed
    exact ⟨formed.slashes, fun combinator children member =>
      formed.groups combinator children (List.mem_cons_of_mem _ member)⟩
  · intro formed
    refine ⟨formed.slashes, fun combinator children member => ?_⟩
    rcases List.mem_cons.mp member with same | inside
    · cases same
    · exact formed.groups combinator children inside

theorem isFormed_group {combinator : Combinator} {children : List Tree} :
    (group combinator children).IsFormed ↔
      combinator.Takes children ∧ ∀ child ∈ children, child.IsFormed := by
  constructor
  · intro formed
    refine ⟨formed.groups combinator children List.mem_cons_self, fun child member => ⟨?_, ?_⟩⟩
    · intro s leaf
      exact formed.slashes s (mem_childLeaves.mpr ⟨child, member, leaf⟩)
    · intro inner grandchildren inside
      exact formed.groups inner grandchildren
        (List.mem_cons_of_mem _ (mem_childSubtrees.mpr ⟨child, member, inside⟩))
  · intro given
    obtain ⟨takes, each⟩ := given
    constructor
    · intro s leaf
      obtain ⟨child, member, within⟩ := mem_childLeaves.mp leaf
      exact (each child member).slashes s within
    · intro inner grandchildren inside
      rcases List.mem_cons.mp inside with same | deeper
      · cases same
        exact takes
      · obtain ⟨child, member, within⟩ := mem_childSubtrees.mp deeper
        exact (each child member).groups inner grandchildren within

theorem isFormed_underMultipliers {tree : Tree} (formed : tree.IsFormed)
    (multipliers : List Multiplier) : (underMultipliers tree multipliers).IsFormed := by
  induction multipliers generalizing tree with
  | nil => exact formed
  | cons m multipliers ih => exact ih (isFormed_repeated.mpr formed)

/-- Operands in a row make a normal tree: a single one stands for itself, unless it is a slash. -/
theorem isNormal_ofSequence {trees : List Tree} (each : ∀ tree ∈ trees, tree.IsFormed) :
    (ofSequence trees).IsNormal := by
  have several (takes : Combinator.sequence.Takes trees) :
      (group .sequence trees).IsNormal :=
    ⟨isFormed_group.mpr ⟨takes, each⟩, fun s same => by cases same⟩
  match trees with
  | [] => exact several (Or.inl rfl)
  | [token text] => exact ⟨isFormed_token text, fun s same => by cases same⟩
  | [separator s] =>
    have same : s = slash := (each _ List.mem_cons_self).slashes s List.mem_cons_self
    exact several (Or.inr (Or.inl (by rw [same])))
  | [group combinator children] =>
    exact ⟨each _ List.mem_cons_self, fun s same => by cases same⟩
  | [repeated body m] => exact ⟨each _ List.mem_cons_self, fun s same => by cases same⟩
  | first :: second :: others =>
    rw [ofSequence_cons_cons]
    exact several (Or.inr (Or.inr (by simp)))

/-- The reader makes normal trees. -/
theorem isNormal_of_ofLexemes {items : List Lexeme} {tree : Tree}
    (built : ofLexemes items = .ok tree) : tree.IsNormal := by
  obtain ⟨balanced, read⟩ := ofLexemes_eq_ok.mp built
  refine ofBalanced_induction (motive := fun _ tree => tree.IsNormal) ?_ ?_ balanced read
  · intro items kind runs trees cut _ inner
    obtain ⟨known, -, enough⟩ := split?_eq_some cut
    have normal : ∀ tree ∈ trees, tree.IsNormal := by
      intro tree member
      obtain ⟨run, -, -, normal⟩ := exists_mem_of_forall₂ inner.flip member
      exact normal
    have takes : kind.1.Takes trees := by
      have operands : 2 ≤ trees.length ∧ ∀ s, separator s ∉ trees :=
        ⟨inner.length_eq ▸ enough, fun s member => (normal _ member).solid s rfl⟩
      simp only [Combinator.delimited, List.mem_cons, List.not_mem_nil, or_false] at known
      rcases known with rfl | rfl | rfl | rfl <;> exact operands
    exact ⟨isFormed_group.mpr ⟨takes, fun tree member => (normal tree member).toIsFormed⟩,
      fun s same => by cases same⟩
  · intro found trees _ inner
    apply isNormal_ofSequence
    intro tree member
    obtain ⟨part, -, core, rfl, shape⟩ := exists_mem_of_forall₂ inner.flip member
    apply isFormed_underMultipliers
    split at shape
    · rw [shape]
      exact isFormed_token _
    · rw [shape]
      exact isFormed_slash
    · exact shape.2.toIsFormed

/-! ### Printing -/

/-- Whether a tree is put between brackets as an operand of a combinator: a group that binds no
tighter is, and so is a sequence of nothing. -/
def isBracketed (around : Combinator) : Tree → Bool
  | group combinator children =>
    combinator.tightness ≤ around.tightness || combinator == .sequence && children.isEmpty
  | _ => false

mutual

/-- What a tree is written as. Multipliers bind as tightly as sequences do. -/
def print : Tree → List Lexeme
  | token text => [.token text]
  | separator s => s.lexemes
  | group combinator children =>
    combinator.delimiter.intercalate (printOperands combinator children)
  | repeated body m =>
    (if body.isBracketed .sequence then (Core.brackets (print body)).lexemes else print body) ++
      [.multiplier m]

def printOperands (around : Combinator) : List Tree → List (List Lexeme)
  | [] => []
  | child :: children =>
    (if child.isBracketed around then (Core.brackets (print child)).lexemes else print child) ::
      printOperands around children

end

def printWithin (around : Combinator) (tree : Tree) : List Lexeme :=
  if tree.isBracketed around then (Core.brackets (print tree)).lexemes else print tree

theorem printOperands_eq_map (around : Combinator) (children : List Tree) :
    printOperands around children = children.map (printWithin around) := by
  induction children with
  | nil => rfl
  | cons child children ih => rw [printOperands, ih, List.map_cons, printWithin]

theorem print_group (combinator : Combinator) (children : List Tree) :
    (group combinator children).print =
      combinator.delimiter.intercalate (children.map (printWithin combinator)) := by
  rw [print, printOperands_eq_map]

theorem print_repeated (body : Tree) (m : Multiplier) :
    (repeated body m).print = body.printWithin .sequence ++ [.multiplier m] := by
  rw [print, printWithin]

/-! ### Reading what has been printed -/

/-- A combinator that binds less has fewer loose delimiters, and that of a tighter one is none of
them. -/
theorem loose_of_looser {around combinator : Combinator}
    (looser : around.tightness < combinator.tightness) :
    (∀ delimiter ∈ around.loose, delimiter ∈ combinator.loose) ∧
      ∀ delimiter ∈ combinator.delimiter, delimiter ∉ around.loose := by
  cases around <;> cases combinator <;> revert looser <;> decide

/-- A row of operands is not cut at the delimiters of combinators that bind less. -/
theorem isWhole_operands {around combinator : Combinator} {runs : List (List Lexeme)}
    {trees : List Tree} (looser : around.tightness < combinator.tightness)
    (each : List.Forall₂ (IsOperand combinator) runs trees) :
    IsWhole around.loose (combinator.delimiter.intercalate runs) := by
  obtain ⟨fewer, other⟩ := loose_of_looser looser
  -- A row between delimiters is whole since its operands are; a sequence, since its parts are.
  have delimited (delimiter : Lexeme) (known : delimiter ∈ delimiters)
      (different : delimiter ∉ around.loose)
      (operands : List.Forall₂ (fun run tree => run ≠ [] ∧ ofLexemes run = .ok tree ∧
        IsWhole combinator.loose run) runs trees) :
      IsWhole around.loose ([delimiter].intercalate runs) := by
    apply isWhole_intercalate known different
    intro run member
    obtain ⟨tree, -, -, -, whole⟩ := exists_mem_of_forall₂ operands member
    exact ⟨whole.balanced, fun delimiter loose => whole.uncut delimiter (fewer delimiter loose)⟩
  cases combinator with
  | sequence =>
    obtain ⟨found, rfl, reads⟩ := exists_parts each
    have whole := isWhole_parts (sound_of_reads reads)
    rw [Combinator.delimiter, intercalate_nothing, ← List.flatMap_def]
    exact ⟨whole.balanced, fun delimiter loose =>
      whole.uncut delimiter (mem_delimiters_of_loose around delimiter loose)⟩
  | list => exact delimited .comma (by decide) (other _ List.mem_cons_self) each
  | choice => exact delimited .bar (by decide) (other _ List.mem_cons_self) each
  | someOf => exact delimited .doubleBar (by decide) (other _ List.mem_cons_self) each
  | allOf => exact delimited .doubleAmpersand (by decide) (other _ List.mem_cons_self) each

theorem ofLexemes_nil : ofLexemes [] = .ok (group .sequence []) :=
  ofLexemes_row .nil

theorem ofOperands_of_takes {combinator : Combinator} {children : List Tree}
    (takes : combinator.Takes children) :
    ofOperands combinator children = group combinator children := by
  have several (enough : 2 ≤ children.length) :
      ofOperands combinator children = group combinator children := by
    match children with
    | [] => simp at enough
    | [child] => simp at enough
    | first :: second :: others => exact ofOperands_cons_cons combinator first second others
  cases combinator with
  | sequence =>
    rcases takes with rfl | rfl | enough
    · rfl
    · rfl
    · exact several enough
  | _ => exact several takes.1

section Groups

variable {combinator : Combinator} {children : List Tree}

/-- A group is read back if its operands are. -/
theorem ofLexemes_print_group (takes : combinator.Takes children)
    (each : List.Forall₂ (IsOperand combinator) (children.map (printWithin combinator)) children) :
    ofLexemes (group combinator children).print = .ok (group combinator children) := by
  rw [print_group]
  cases children with
  | nil =>
    have sequence : combinator = .sequence := by
      by_contra delimited
      exact absurd (takes.several delimited).1 (by simp)
    subst sequence
    exact ofLexemes_nil
  | cons child children =>
    rw [ofLexemes_operands (by simp) each, ofOperands_of_takes takes]

/-- A group is an operand of every combinator: between brackets, or, where it binds tighter than
what is around it, as it stands. -/
theorem isOperand_group (takes : combinator.Takes children)
    (each : List.Forall₂ (IsOperand combinator) (children.map (printWithin combinator)) children)
    (around : Combinator) :
    IsOperand around ((group combinator children).printWithin around)
      (group combinator children) := by
  have built := ofLexemes_print_group takes each
  unfold printWithin
  split
  · exact isOperand_brackets built around
  · next bare =>
    simp only [isBracketed, Bool.or_eq_true, decide_eq_true_eq, not_or, Nat.not_le] at bare
    obtain ⟨looser, several⟩ := bare
    have nonempty : (group combinator children).print ≠ [] := by
      intro empty
      rw [empty, ofLexemes_nil] at built
      cases built
      exact several rfl
    have whole := isWhole_operands looser each
    rw [← print_group] at whole
    have operand := And.intro nonempty (And.intro built whole)
    cases around with
    | sequence =>
      -- Nothing binds tighter than a sequence.
      cases combinator <;> exact absurd looser (by decide)
    | _ => exact operand

end Groups

/-- A multiplier goes with the part in front of it. -/
theorem reads_repeated {items : List Lexeme} {body : Tree}
    (operand : IsOperand .sequence items body) (m : Multiplier) :
    ∃ part : Part, items ++ [.multiplier m] = part.lexemes ∧ part.Reads (repeated body m) := by
  obtain ⟨part, rfl, reads⟩ := operand
  refine ⟨⟨part.core, part.multipliers ++ [m]⟩, ?_, reads.sound, ?_⟩
  · simp [Part.lexemes]
  · have built := reads.built
    unfold Part.tree at built ⊢
    cases core : part.core.tree with
    | error e =>
      rw [core] at built
      cases built
    | ok tree =>
      rw [core] at built
      cases built
      simp [Except.map, underMultipliers]

mutual

/-- A formed tree is written as an operand of what is around it. A bare separator stands in
sequences only. -/
theorem isOperand_printWithin : ∀ (tree : Tree) (around : Combinator), tree.IsFormed →
    (around = .sequence ∨ ∀ s, tree ≠ separator s) → IsOperand around (tree.printWithin around) tree
  | token text, around, _, _ =>
    have reads : Part.Reads ⟨.token text, []⟩ (token text) := ⟨trivial, rfl⟩
    isOperand_part reads (fun s same => by cases same) around
  | separator s, around, formed, fits => by
    obtain rfl : s = slash := formed.slashes s List.mem_cons_self
    rcases fits with rfl | solid
    · exact ⟨⟨.slash, []⟩, rfl, trivial, rfl⟩
    · exact absurd rfl (solid slash)
  | group combinator children, around, formed, _ =>
    have shape := isFormed_group.mp formed
    isOperand_group shape.1 (forall₂_isOperand_printWithin children combinator shape.2
      fun delimited child member s same =>
        (shape.1.several delimited).2 s (same ▸ member)) around
  | repeated body m, around, formed, _ => by
    have inner := isFormed_repeated.mp formed
    obtain ⟨part, whole, reads⟩ :=
      reads_repeated (isOperand_printWithin body .sequence inner (Or.inl rfl)) m
    have printed : (repeated body m).printWithin around = part.lexemes := by
      rw [← whole, ← print_repeated]
      rfl
    rw [printed]
    exact isOperand_part reads (fun s same => by cases same) around

/-- The same for the operands of a combinator. -/
theorem forall₂_isOperand_printWithin : ∀ (trees : List Tree) (around : Combinator),
    (∀ tree ∈ trees, tree.IsFormed) →
    (around ≠ .sequence → ∀ tree ∈ trees, ∀ s, tree ≠ separator s) →
    List.Forall₂ (IsOperand around) (trees.map (printWithin around)) trees
  | [], _, _, _ => .nil
  | tree :: trees, around, formed, solid =>
    .cons
      (isOperand_printWithin tree around (formed tree List.mem_cons_self)
        ((eq_or_ne around .sequence).imp_right fun delimited =>
          solid delimited tree List.mem_cons_self))
      (forall₂_isOperand_printWithin trees around
        (fun other member => formed other (List.mem_cons_of_mem _ member))
        fun delimited other member => solid delimited other (List.mem_cons_of_mem _ member))

end

/-- A normal tree is read back from what it is written as. -/
theorem ofLexemes_print {tree : Tree} (normal : tree.IsNormal) :
    ofLexemes tree.print = .ok tree := by
  have operand := isOperand_printWithin tree .list normal.toIsFormed (Or.inr normal.solid)
  cases tree with
  | token text => exact operand.2.1
  | separator s => exact absurd rfl (normal.solid s)
  | repeated body m => exact operand.2.1
  | group combinator children =>
    -- At the root there are no brackets around a group.
    obtain ⟨takes, formed⟩ := isFormed_group.mp normal.toIsFormed
    apply ofLexemes_print_group takes
    apply forall₂_isOperand_printWithin children combinator formed
    rintro delimited child member s rfl
    exact (takes.several delimited).2 s member

/-- The reader makes normal trees only, and each of them from what it is written as. -/
theorem reader_inverts_print :
    (∀ items tree, ofLexemes items = .ok tree → tree.IsNormal) ∧
      ∀ tree : Tree, tree.IsNormal → ofLexemes tree.print = .ok tree :=
  ⟨fun _ _ built => isNormal_of_ofLexemes built, fun _ normal => ofLexemes_print normal⟩

/-- `[ a || b c ]?, / | d [ ]` is written with no more brackets than its tree needs. -/
theorem reader_inverts_print_mixed : ∃ tree : Tree,
    ofLexemes [.opening, .token "a", .doubleBar, .token "b", .token "c", .closing,
        .multiplier .optional, .comma, .slash, .bar, .token "d", .opening, .closing] = .ok tree ∧
      tree.IsNormal ∧ ofLexemes tree.print = .ok tree ∧
      tree.print = [.opening, .token "a", .doubleBar, .token "b", .token "c", .closing,
        .multiplier .optional, .comma, .slash, .bar, .token "d", .opening, .closing] := by
  have computed : (ofLexemes [.opening, .token "a", .doubleBar, .token "b", .token "c", .closing,
      .multiplier .optional, .comma, .slash, .bar, .token "d", .opening, .closing]).toOption.any
      (·.print == [.opening, .token "a", .doubleBar, .token "b", .token "c", .closing,
        .multiplier .optional, .comma, .slash, .bar, .token "d", .opening, .closing]) = true := by
    decide +kernel
  obtain ⟨tree, built, printed⟩ := exists_ok_of_any computed
  have normal := reader_inverts_print.1 _ tree built
  exact ⟨tree, built, normal, reader_inverts_print.2 tree normal, eq_of_beq printed⟩

end Tree

end ValueGrammar
