import ValueGrammar.Proofs.Tree.Leaves

/-!
Tokens replaced by operands. Where every token of a run is replaced by a token or by a bracketed
run, the reader cuts the new run as it cuts the old one, so its tree is the old tree with the trees
of the operands in the place of the leaves.
-/
namespace ValueGrammar.Tree

/-! ### Replacing tokens -/

/-- What stands for a lexeme when tokens are replaced. -/
def spliceLexeme (f : String → Core) : Lexeme → List Lexeme
  | .token text => (f text).lexemes
  | x => [x]

/-- A run with its tokens replaced. -/
def splice (f : String → Core) (items : List Lexeme) : List Lexeme :=
  items.flatMap (spliceLexeme f)

def spliceCore (f : String → Core) : Core → Core
  | .token text => f text
  | .slash => .slash
  | .brackets inner => .brackets (splice f inner)

def splicePart (f : String → Core) (part : Part) : Part :=
  ⟨spliceCore f part.core, part.multipliers⟩

mutual

/-- A tree with its tokens replaced. -/
def graft (g : String → Tree) : Tree → Tree
  | token text => g text
  | separator s => separator s
  | group combinator children => group combinator (childGraft g children)
  | repeated body m => repeated (graft g body) m

def childGraft (g : String → Tree) : List Tree → List Tree
  | [] => []
  | child :: children => graft g child :: childGraft g children

end

variable {f : String → Core} {g : String → Tree}

theorem splice_append (front back : List Lexeme) :
    splice f (front ++ back) = splice f front ++ splice f back :=
  List.flatMap_append

theorem splice_core (core : Core) : splice f core.lexemes = (spliceCore f core).lexemes := by
  cases core with
  | token text => exact List.flatMap_singleton ..
  | slash => rfl
  | brackets inner =>
    change Lexeme.opening :: splice f (inner ++ [.closing]) = _
    rw [splice_append]
    rfl

theorem splice_part (part : Part) : splice f part.lexemes = (splicePart f part).lexemes := by
  have multipliers (ms : List Multiplier) :
      splice f (ms.map .multiplier) = ms.map .multiplier := by
    induction ms with
    | nil => rfl
    | cons m ms ih =>
      change Lexeme.multiplier m :: splice f (ms.map .multiplier) = _
      rw [ih]
      rfl
  rw [Part.lexemes, splice_append, splice_core, multipliers]
  rfl

theorem splice_parts (found : List Part) :
    splice f (found.flatMap Part.lexemes) = (found.map (splicePart f)).flatMap Part.lexemes := by
  induction found with
  | nil => rfl
  | cons part found ih =>
    rw [List.flatMap_cons, splice_append, splice_part, ih]
    rfl

theorem spliceLexeme_ne_nil (f : String → Core) (x : Lexeme) : spliceLexeme f x ≠ [] := by
  cases x with
  | token text => exact lexemes_ne_nil (f text)
  | _ => exact List.cons_ne_nil _ _

theorem splice_eq_nil {items : List Lexeme} (empty : splice f items = []) : items = [] := by
  cases items with
  | nil => rfl
  | cons x rest =>
    exact absurd (List.append_eq_nil_iff.mp empty).1 (spliceLexeme_ne_nil f x)

/-! ### Brackets and delimiters of the new run -/

theorem isBalanced_lexemes {core : Core} (sound : core.IsSound) (depth : Nat) (rest : List Lexeme) :
    isBalanced depth (core.lexemes ++ rest) = isBalanced depth rest := by
  cases core with
  | token text => rfl
  | slash => rfl
  | brackets inner =>
    have enclosed := isBalanced_enclosed sound depth rest
    simp only [Core.lexemes, List.cons_append, List.append_assoc, List.nil_append] at enclosed ⊢
    exact enclosed

theorem isBalanced_splice {items : List Lexeme}
    (sound : ∀ text, .token text ∈ items → (f text).IsSound) (depth : Nat) :
    isBalanced depth (splice f items) = isBalanced depth items := by
  induction items generalizing depth with
  | nil => rfl
  | cons x rest ih =>
    have later := ih fun text member => sound text (List.mem_cons_of_mem _ member)
    cases x with
    | token text =>
      change isBalanced depth ((f text).lexemes ++ splice f rest) = _
      rw [isBalanced_lexemes (sound text List.mem_cons_self), later]
      rfl
    | _ =>
      rw [Bool.eq_iff_iff]
      change isBalanced depth (_ :: splice f rest) = true ↔ _
      rw [isBalanced_cons, isBalanced_cons, later]

theorem operands_splice {delimiter : Lexeme} (member : delimiter ∈ delimiters)
    {items : List Lexeme} (sound : ∀ text, .token text ∈ items → (f text).IsSound) (depth : Nat) :
    operands delimiter depth (splice f items) = (operands delimiter depth items).map (splice f) := by
  induction items generalizing depth with
  | nil => rfl
  | cons x rest ih =>
    have later := ih fun text inside => sound text (List.mem_cons_of_mem _ inside)
    have single (y : Lexeme) (alone : spliceLexeme f y = [y]) :
        operands delimiter depth (splice f (y :: rest)) =
          (operands delimiter depth (y :: rest)).map (splice f) := by
      have whole (run : List Lexeme) : splice f (y :: run) = y :: splice f run := by
        change spliceLexeme f y ++ splice f run = _
        rw [alone]
        rfl
      rw [whole]
      by_cases cut : depth = 0 ∧ y = delimiter
      · rw [operands, operands, if_pos cut, if_pos cut, later]
        rfl
      · rw [operands, operands, if_neg cut, if_neg cut, later]
        cases runs : operands delimiter (depthAfter depth y) rest with
        | nil => exact absurd runs (operands_ne_nil _ _ _)
        | cons first others => simp [consFirst, whole]
    cases x with
    | token text =>
      have different : Lexeme.token text ≠ delimiter := by
        intro same
        subst same
        simp [delimiters, Combinator.delimited] at member
      have cut := operands_part member ⟨f text, []⟩ (sound text List.mem_cons_self) depth
        (splice f rest)
      simp only [Part.lexemes, List.map_nil, List.append_nil] at cut
      change operands delimiter depth ((f text).lexemes ++ splice f rest) = _
      rw [cut, later, operands_cons different]
      change _ = (consFirst _ (operands delimiter depth rest)).map (splice f)
      cases runs : operands delimiter depth rest with
      | nil => exact absurd runs (operands_ne_nil _ _ _)
      | cons first others =>
        rw [List.map_cons, foldr_consFirst]
        rfl
    | _ => exact single _ rfl

theorem split?_splice {items : List Lexeme}
    (sound : ∀ text, .token text ∈ items → (f text).IsSound) :
    split? (splice f items) =
      (split? items).map fun answer => (answer.1, answer.2.map (splice f)) := by
  unfold split?
  rw [List.map_findSome?]
  apply findSome?_congr
  intro kind member
  rw [operands_splice (List.mem_map_of_mem member) sound]
  dsimp only [Function.comp_apply]
  rw [List.length_map]
  by_cases enough : 2 ≤ (operands kind.2 0 items).length
  · rw [if_pos enough, if_pos enough, Option.map_some]
  · rw [if_neg enough, if_neg enough, Option.map_none]

/-! ### The tree of the new run -/

theorem graft_underMultipliers (tree : Tree) (multipliers : List Multiplier) :
    (underMultipliers tree multipliers).graft g = underMultipliers (tree.graft g) multipliers := by
  induction multipliers generalizing tree with
  | nil => rfl
  | cons m multipliers ih => exact ih (repeated tree m)

theorem childGraft_eq_map (trees : List Tree) : childGraft g trees = trees.map (graft g) := by
  induction trees with
  | nil => rfl
  | cons tree trees ih => rw [childGraft, ih, List.map_cons]

theorem ofSequence_singleton {tree : Tree} (other : ∀ s, tree ≠ separator s) :
    ofSequence [tree] = tree := by
  cases tree with
  | separator s => exact absurd rfl (other s)
  | _ => rfl

/-- The tree of a run is never a bare separator. -/
theorem ofBalanced_ne_separator {items : List Lexeme} {tree : Tree}
    (built : ofBalanced items = .ok tree) (s : Separator) : tree ≠ separator s := by
  rcases ofBalanced_eq_ok built with ⟨kind, runs, trees, -, -, -, rfl⟩ | ⟨found, trees, -, -, -, rfl⟩
  · intro same
    cases same
  · unfold ofSequence
    split <;> (intro same; cases same)

/-- What a token is replaced by: an operand with its tree, which is not a bare separator. -/
structure StandsFor (core : Core) (tree : Tree) : Prop where
  sound : core.IsSound
  built : core.tree = .ok tree
  solid : ∀ s, tree ≠ separator s

theorem ofSequence_cons_cons (first second : Tree) (others : List Tree) :
    ofSequence (first :: second :: others) = group .sequence (first :: second :: others) := by
  cases first <;> rfl

theorem graft_ofSequence {trees : List Tree}
    (solid : ∀ tree ∈ trees, ∀ s, tree.graft g = separator s → tree = separator s) :
    (ofSequence trees).graft g = ofSequence (trees.map (graft g)) := by
  cases trees with
  | nil => rfl
  | cons first others =>
    cases others with
    | nil =>
      cases first with
      | token text =>
        have other : ∀ s, (token text).graft g ≠ separator s := by
          intro s same
          cases solid _ List.mem_cons_self s same
        exact (ofSequence_singleton other).symm
      | separator s => rfl
      | group combinator children => rfl
      | repeated body m => rfl
    | cons second others =>
      rw [ofSequence_cons_cons, graft, childGraft_eq_map]
      exact (ofSequence_cons_cons ..).symm

theorem underMultipliers_ne_separator (tree : Tree) (m : Multiplier) (multipliers : List Multiplier)
    (s : Separator) : underMultipliers tree (m :: multipliers) ≠ separator s := by
  induction multipliers generalizing tree m with
  | nil =>
    intro same
    cases same
  | cons next multipliers ih => exact ih (repeated tree m) next

theorem isSound_spliceCore {core : Core} (sound : core.IsSound)
    (each : ∀ text, .token text ∈ core.lexemes → (f text).IsSound) :
    (spliceCore f core).IsSound := by
  cases core with
  | token text => exact each text List.mem_cons_self
  | slash => trivial
  | brackets inner =>
    have inside : ∀ text, .token text ∈ inner → (f text).IsSound := fun text member =>
      each text (List.mem_cons_of_mem _ (List.mem_append_left _ member))
    change isBalanced 0 (splice f inner) = true
    rw [isBalanced_splice inside]
    exact sound

theorem graft_part {part : Part} {tree : Tree}
    (each : ∀ text, .token text ∈ part.core.lexemes → StandsFor (f text) (g text))
    (built : Part.Built (fun items tree => (∀ text, .token text ∈ items →
      StandsFor (f text) (g text)) → ofBalanced (splice f items) = .ok (tree.graft g)) part tree) :
    (splicePart f part).tree = .ok (tree.graft g) ∧
      ∀ s, tree.graft g = separator s → tree = separator s := by
  obtain ⟨core, rfl, shape⟩ := built
  have spliced : (spliceCore f part.core).tree = .ok (core.graft g) ∧
      ∀ s, core.graft g = separator s → core = separator s := by
    cases kind : part.core with
    | token text =>
      rw [kind] at shape each
      have stands := each text List.mem_cons_self
      rw [shape]
      exact ⟨stands.built, fun s same => absurd same (stands.solid s)⟩
    | slash =>
      rw [kind] at shape
      rw [shape]
      exact ⟨rfl, fun s same => same⟩
    | brackets inner =>
      rw [kind] at shape each
      have within := shape.2 fun text member =>
        each text (List.mem_cons_of_mem _ (List.mem_append_left _ member))
      exact ⟨within, fun s same => absurd same (ofBalanced_ne_separator within s)⟩
  constructor
  · change (spliceCore f part.core).tree.map (underMultipliers · part.multipliers) = _
    rw [spliced.1, graft_underMultipliers]
    rfl
  · cases part.multipliers with
    | nil => exact spliced.2
    | cons m multipliers =>
      intro s same
      rw [graft_underMultipliers] at same
      exact absurd same (underMultipliers_ne_separator (core.graft g) m multipliers s)

/-- The tree of a run with its tokens replaced is the tree of the run with its tokens replaced. -/
theorem ofBalanced_splice {items : List Lexeme} (balanced : isBalanced 0 items = true) {tree : Tree}
    (built : ofBalanced items = .ok tree)
    (each : ∀ text, .token text ∈ items → StandsFor (f text) (g text)) :
    ofBalanced (splice f items) = .ok (tree.graft g) := by
  revert each
  refine ofBalanced_induction (motive := fun items tree => (∀ text, .token text ∈ items →
    StandsFor (f text) (g text)) → ofBalanced (splice f items) = .ok (tree.graft g)) ?_ ?_
    balanced built
  · intro items kind runs trees cut solid inner each
    have sound : ∀ text, .token text ∈ items → (f text).IsSound := fun text member =>
      (each text member).sound
    have cut' : split? (splice f items) = some (kind, runs.map (splice f)) := by
      rw [split?_splice sound, cut]
      rfl
    have solid' : [] ∉ runs.map (splice f) := by
      intro member
      obtain ⟨run, inside, empty⟩ := List.mem_map.mp member
      rw [splice_eq_nil empty] at inside
      exact solid inside
    rw [graft, childGraft_eq_map]
    apply ofBalanced_group cut' solid'
    rw [List.forall₂_map_left_iff, List.forall₂_map_right_iff]
    obtain ⟨-, rfl, -⟩ := split?_eq_some cut
    apply forall₂_of_mem inner
    intro run member tree builtRun
    exact builtRun.2 fun text token => each text (mem_of_mem_operands member token)
  · intro found trees sound inner each
    have spliced : List.Forall₂ (fun part tree => (splicePart f part).tree = .ok (tree.graft g) ∧
        ∀ s, tree.graft g = separator s → tree = separator s) found trees := by
      apply forall₂_of_mem inner
      intro part member tree builtPart
      apply graft_part _ builtPart
      intro text token
      exact each text (List.mem_flatMap.mpr ⟨part, member, List.mem_append_left _ token⟩)
    have sound' : ∀ part ∈ found.map (splicePart f), part.core.IsSound := by
      intro part member
      obtain ⟨original, inside, rfl⟩ := List.mem_map.mp member
      apply isSound_spliceCore (sound original inside)
      intro text token
      exact (each text (List.mem_flatMap.mpr
        ⟨original, inside, List.mem_append_left _ token⟩)).sound
    rw [splice_parts, graft_ofSequence]
    · apply ofBalanced_sequence sound'
      rw [List.forall₂_map_left_iff, List.forall₂_map_right_iff]
      exact spliced.imp fun _ _ both => both.1
    · intro tree member
      obtain ⟨part, -, both⟩ := exists_mem_of_forall₂ spliced.flip member
      exact both.2

end ValueGrammar.Tree
