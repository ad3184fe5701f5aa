import ValueGrammar.Proofs.Tree.Reader

/-!
The tree of a run of lexemes. `ofBalanced_eq_ok` says what the reader builds from the trees of the
runs inside a run, and `ofBalanced_induction` proves by that whatever holds of every tree built.
-/
namespace ValueGrammar.Tree

def Core.tree : Core → Except Malformation Tree
  | .token text => .ok (.token text)
  | .slash => .ok (.separator .slash)
  | .brackets inner => ofBalanced inner

def Part.tree (part : Part) : Except Malformation Tree :=
  part.core.tree.map (underMultipliers · part.multipliers)

theorem mapM_attach {ε α β : Type} (xs : List α) (visit : α → Except ε β) :
    (xs.attach.mapM fun x => visit x.1) = xs.mapM visit := by
  rw [List.mapM_subtype (g := visit) fun _ _ => rfl, List.unattach_attach]

theorem ofBalanced_of_split? {items : List Lexeme} {kind : Combinator × Lexeme}
    {runs : List (List Lexeme)} (cut : split? items = some (kind, runs)) :
    ofBalanced items =
      if runs.any List.isEmpty then .error (.dangling kind.2 items)
      else (runs.mapM ofBalanced).map (group kind.1) := by
  rw [ofBalanced]
  split
  · next combinator delimiter runs' cut' =>
    rw [cut] at cut'
    cases cut'
    rw [mapM_attach]
  · next uncut =>
    rw [cut] at uncut
    cases uncut

theorem ofBalanced_of_parts {items : List Lexeme} (uncut : split? items = none)
    {found : List Part} (read : parts items = .ok found) :
    ofBalanced items = (found.mapM Part.tree).map ofSequence := by
  rw [ofBalanced]
  split
  · next cut =>
    rw [uncut] at cut
    cases cut
  · split
    · next unread =>
      rw [read] at unread
      cases unread
    · next found' read' =>
      rw [read] at read'
      cases read'
      rw [← mapM_attach found Part.tree]
      refine congrArg (Except.map ofSequence) (congrArg (fun f => List.mapM f _) ?_)
      funext part
      unfold Part.tree
      refine congrArg (Except.map _) ?_
      split
      · next core => rw [core, Core.tree]
      · next core => rw [core, Core.tree]
      · next core => rw [core, Core.tree]

theorem ofBalanced_of_parts_error {items : List Lexeme} (uncut : split? items = none) {x : Lexeme}
    (unread : parts items = .error x) : ofBalanced items = .error (.unexpected x items) := by
  rw [ofBalanced]
  split
  · next cut =>
    rw [uncut] at cut
    cases cut
  · split
    · next unread' =>
      rw [unread] at unread'
      cases unread'
      rfl
    · next read =>
      rw [unread] at read
      cases read

/-- A tree is a group of the trees of the runs between delimiters, or the sequence of the trees of
the operands. -/
theorem ofBalanced_eq_ok {items : List Lexeme} {tree : Tree}
    (built : ofBalanced items = .ok tree) :
    (∃ kind runs trees, split? items = some (kind, runs) ∧ [] ∉ runs ∧
        List.Forall₂ (fun run tree => ofBalanced run = .ok tree) runs trees ∧
        tree = group kind.1 trees) ∨
      ∃ found trees, split? items = none ∧ parts items = .ok found ∧
        List.Forall₂ (fun part tree => Part.tree part = .ok tree) found trees ∧
        tree = ofSequence trees := by
  cases cut : split? items with
  | some answer =>
    obtain ⟨kind, runs⟩ := answer
    rw [ofBalanced_of_split? cut] at built
    by_cases empty : runs.any List.isEmpty = true
    · rw [if_pos empty] at built
      cases built
    · rw [if_neg empty] at built
      cases visited : runs.mapM ofBalanced with
      | error e =>
        rw [visited] at built
        cases built
      | ok trees =>
        rw [visited] at built
        cases built
        refine Or.inl ⟨kind, runs, trees, rfl, ?_, mapM_eq_ok.mp visited, rfl⟩
        intro member
        exact empty (List.any_eq_true.mpr ⟨[], member, rfl⟩)
  | none =>
    cases read : parts items with
    | error x =>
      rw [ofBalanced_of_parts_error cut read] at built
      cases built
    | ok found =>
      rw [ofBalanced_of_parts cut read] at built
      cases visited : found.mapM Part.tree with
      | error e =>
        rw [visited] at built
        cases built
      | ok trees =>
        rw [visited] at built
        cases built
        exact Or.inr ⟨found, trees, rfl, rfl, mapM_eq_ok.mp visited, rfl⟩

/-! ### Building from parts -/

theorem ofBalanced_group {items : List Lexeme} {kind : Combinator × Lexeme}
    {runs : List (List Lexeme)} {trees : List Tree} (cut : split? items = some (kind, runs))
    (solid : [] ∉ runs) (built : List.Forall₂ (fun run tree => ofBalanced run = .ok tree) runs trees) :
    ofBalanced items = .ok (group kind.1 trees) := by
  have nonempty : ¬ runs.any List.isEmpty = true := by
    intro empty
    obtain ⟨run, member, none⟩ := List.any_eq_true.mp empty
    rw [List.isEmpty_iff] at none
    exact solid (none ▸ member)
  rw [ofBalanced_of_split? cut, if_neg nonempty, mapM_eq_ok.mpr built]
  rfl

theorem split?_parts {found : List Part} (sound : ∀ part ∈ found, part.core.IsSound) :
    split? (found.flatMap Part.lexemes) = none := by
  rw [split?, List.findSome?_eq_none_iff]
  intro kind member
  have uncut := operands_parts (List.mem_map_of_mem member) sound 0 []
  rw [List.append_nil, operands, foldr_consFirst] at uncut
  simp [uncut]

theorem ofBalanced_sequence {found : List Part} {trees : List Tree}
    (sound : ∀ part ∈ found, part.core.IsSound)
    (built : List.Forall₂ (fun part tree => Part.tree part = .ok tree) found trees) :
    ofBalanced (found.flatMap Part.lexemes) = .ok (ofSequence trees) := by
  rw [ofBalanced_of_parts (split?_parts sound) (parts_lexemes sound), mapM_eq_ok.mpr built]
  rfl

/-! ### Induction over trees built -/

/-- The combinator that cuts a run has a delimiter, which cuts it into two runs or more. -/
theorem split?_eq_some {items : List Lexeme} {kind : Combinator × Lexeme}
    {runs : List (List Lexeme)} (cut : split? items = some (kind, runs)) :
    kind ∈ Combinator.delimited ∧ runs = operands kind.2 0 items ∧ 2 ≤ runs.length := by
  obtain ⟨candidate, member, found⟩ := List.exists_of_findSome?_eq_some cut
  simp only [Option.ite_none_right_eq_some, Option.some.injEq, Prod.mk.injEq] at found
  obtain ⟨enough, rfl, rfl⟩ := found
  exact ⟨member, rfl, enough⟩

theorem isBalanced_of_split? {items : List Lexeme} (balanced : isBalanced 0 items = true)
    {kind : Combinator × Lexeme} {runs : List (List Lexeme)}
    (cut : split? items = some (kind, runs)) : ∀ run ∈ runs, isBalanced 0 run = true := by
  obtain ⟨member, rfl, -⟩ := split?_eq_some cut
  have noBracket := not_bracket_of_delimiter (List.mem_map_of_mem member)
  obtain ⟨first, others, eq, balancedFirst, balancedOthers⟩ :=
    isBalanced_of_mem_operands noBracket.2 noBracket.1 balanced
  rw [eq]
  intro run inside
  rcases List.mem_cons.mp inside with rfl | later
  · exact balancedFirst
  · exact balancedOthers run later

/-- What is known of the tree of an operand when `motive` holds of the trees of shorter runs. -/
def Part.Built (motive : List Lexeme → Tree → Prop) (part : Part) (tree : Tree) : Prop :=
  ∃ core, tree = underMultipliers core part.multipliers ∧
    match part.core with
    | .token text => core = .token text
    | .slash => core = .separator .slash
    | .brackets inner => ofBalanced inner = .ok core ∧ motive inner core

/-- What holds of groups and sequences whenever it holds of the runs inside holds of the tree of
every balanced run. -/
theorem ofBalanced_induction {motive : List Lexeme → Tree → Prop}
    (delimited : ∀ items kind runs trees, split? items = some (kind, runs) → [] ∉ runs →
      List.Forall₂ (fun run tree => ofBalanced run = .ok tree ∧ motive run tree) runs trees →
      motive items (group kind.1 trees))
    (row : ∀ found trees, (∀ part ∈ found, part.core.IsSound) →
      List.Forall₂ (Part.Built motive) found trees →
      motive (found.flatMap Part.lexemes) (ofSequence trees))
    {items : List Lexeme} (balanced : isBalanced 0 items = true) {tree : Tree}
    (built : ofBalanced items = .ok tree) : motive items tree := by
  induction size : items.length using Nat.strongRecOn generalizing items tree with
  | ind n ih =>
    subst size
    rcases ofBalanced_eq_ok built with
      ⟨kind, runs, trees, cut, solid, inner, rfl⟩ | ⟨found, trees, uncut, read, inner, rfl⟩
    · apply delimited items kind runs trees cut solid
      apply forall₂_of_mem inner
      intro run member tree builtRun
      have shorter := split?_shorter cut run member
      have balancedRun := isBalanced_of_split? balanced cut run member
      exact ⟨builtRun, ih run.length shorter balancedRun builtRun rfl⟩
    · have shorter := parts_shorter read
      obtain ⟨rfl, sound⟩ := parts_spec balanced read
      apply row found trees sound
      apply forall₂_of_mem inner
      intro part member tree builtPart
      have balancedPart := sound part member
      unfold Part.tree at builtPart
      cases core : part.core with
      | token text =>
        rw [core] at builtPart
        cases builtPart
        exact ⟨.token text, rfl, by rw [core]⟩
      | slash =>
        rw [core] at builtPart
        cases builtPart
        exact ⟨.separator .slash, rfl, by rw [core]⟩
      | brackets inner =>
        rw [core] at builtPart balancedPart
        cases inside : ofBalanced inner with
        | error e =>
          rw [Core.tree, inside] at builtPart
          cases builtPart
        | ok body =>
          rw [Core.tree, inside] at builtPart
          cases builtPart
          refine ⟨body, rfl, ?_⟩
          rw [core]
          exact ⟨inside, ih inner.length (shorter part member inner core) balancedPart inside rfl⟩

/-- A single lexeme with a tree is a token or a slash. -/
theorem single_of_built {x : Lexeme} {tree : Tree} (balanced : isBalanced 0 [x] = true)
    (built : ofBalanced [x] = .ok tree) :
    (∃ text, x = .token text ∧ tree = token text) ∨ x = .slash := by
  rcases ofBalanced_eq_ok built with
    ⟨kind, runs, trees, cut, solid, -, -⟩ | ⟨found, trees, -, read, inner, rfl⟩
  · obtain ⟨-, rfl, enough⟩ := split?_eq_some cut
    cases runs : operands kind.2 0 [x] with
    | nil => exact absurd runs (operands_ne_nil _ _ _)
    | cons first others =>
      -- Two runs are made of one lexeme besides the delimiter, so one of them is empty.
      have short := length_of_mem_operands (runs ▸ List.mem_cons_self : first ∈ operands kind.2 0 [x])
      simp only [List.length_cons, List.length_nil] at short
      have empty : first = [] := List.eq_nil_of_length_eq_zero (by omega)
      rw [runs, empty] at solid
      exact absurd List.mem_cons_self solid
  · obtain ⟨whole, -⟩ := parts_spec balanced read
    cases found with
    | nil => cases whole
    | cons part found =>
      cases inner with
      | cons here others =>
        rw [List.flatMap_cons, Part.lexemes] at whole
        obtain ⟨core, multipliers⟩ := part
        cases core with
        | slash => exact Or.inr (List.cons.inj whole).1
        | token text =>
          have rest : multipliers.map Lexeme.multiplier ++ found.flatMap Part.lexemes = [] :=
            (List.cons.inj whole).2.symm
          have noMultipliers := List.map_eq_nil_iff.mp (List.append_eq_nil_iff.mp rest).1
          have noOthers : found = [] := by
            cases found with
            | nil => rfl
            | cons next found =>
              have empty := (List.append_eq_nil_iff.mp rest).2
              rw [List.flatMap_cons, Part.lexemes, List.append_assoc] at empty
              exact absurd (List.append_eq_nil_iff.mp empty).1 (lexemes_ne_nil next.core)
          subst noMultipliers
          subst noOthers
          cases others
          cases here
          exact Or.inl ⟨text, (List.cons.inj whole).1, rfl⟩
        | brackets inner =>
          have rest := (List.cons.inj whole).2
          simp at rest

end ValueGrammar.Tree
