import Mathlib.Logic.Relation
import ValueGrammar.Proofs.Registry.Settled
import ValueGrammar.Proofs.Tree.Grafting

/-!
Substitution and grouping. Substitution works on runs of lexemes, and brackets are all that it
adds; still the tree of its result is the tree of the grammar with the tree of its definition in
the place of every composed leaf.
-/
namespace ValueGrammar

namespace Registry

/-! ### Resolved trees -/

mutual

/-- A tree with its composed leaves replaced by the resolved trees of their definitions, where the
given ranges are put behind those of every leaf. Other leaves stay, written as they are read. -/
inductive Resolves (registry : Registry) : List Range → Tree → Tree → Prop
  | kept {ranges : List Range} {text : String} {reference : Reference}
      (parsed : Reference.parse text = .ok reference)
      (final : registry.isFinal reference = true) :
      Resolves registry ranges (.token text) (.token (reference.narrowedBy ranges).text)
  | opened {ranges : List Range} {text : String} {reference : Reference} {definition : Definition}
      {items : List Lexeme} {body tree : Tree}
      (parsed : Reference.parse text = .ok reference)
      (composed : registry.Composed reference definition)
      (lexed : Lexeme.ofGrammar definition.grammar = .ok items)
      (built : Tree.ofLexemes items = .ok body)
      (resolved : Resolves registry (reference.narrowedBy ranges).ranges body tree) :
      Resolves registry ranges (.token text) tree
  | separator (ranges : List Range) (s : Separator) :
      Resolves registry ranges (.separator s) (.separator s)
  | group {ranges : List Range} (combinator : Combinator) {children children' : List Tree}
      (each : ResolvesAll registry ranges children children') :
      Resolves registry ranges (.group combinator children) (.group combinator children')
  | repeated {ranges : List Range} {body body' : Tree} (m : Multiplier)
      (resolved : Resolves registry ranges body body') :
      Resolves registry ranges (.repeated body m) (.repeated body' m)

inductive ResolvesAll (registry : Registry) : List Range → List Tree → List Tree → Prop
  | nil (ranges : List Range) : ResolvesAll registry ranges [] []
  | cons {ranges : List Range} {child child' : Tree} {children children' : List Tree}
      (here : Resolves registry ranges child child')
      (others : ResolvesAll registry ranges children children') :
      ResolvesAll registry ranges (child :: children) (child' :: children')

end

mutual

/-- A tree is resolved in one way only. -/
theorem Resolves.unique {registry : Registry} : ∀ {ranges : List Range} {tree first second : Tree},
    registry.Resolves ranges tree first → registry.Resolves ranges tree second → first = second
  | _, _, _, _, .kept parsed final, other => by
    cases other with
    | kept parsed' _ =>
      rw [parsed] at parsed'
      cases parsed'
      rfl
    | opened parsed' composed _ _ _ =>
      rw [parsed] at parsed'
      cases parsed'
      rw [composed.not_final] at final
      cases final
  | _, _, _, _, .opened parsed composed lexed built resolved, other => by
    cases other with
    | kept parsed' final =>
      rw [parsed] at parsed'
      cases parsed'
      rw [composed.not_final] at final
      cases final
    | opened parsed' composed' lexed' built' resolved' =>
      rw [parsed] at parsed'
      cases parsed'
      cases composed.unique composed'
      rw [lexed] at lexed'
      cases lexed'
      rw [built] at built'
      cases built'
      exact resolved.unique resolved'
  | _, _, _, _, .separator _ _, other => by
    cases other
    rfl
  | _, _, _, _, .group combinator each, other => by
    cases other with
    | group _ each' => rw [each.unique each']
  | _, _, _, _, .repeated m resolved, other => by
    cases other with
    | repeated _ resolved' => rw [resolved.unique resolved']

theorem ResolvesAll.unique {registry : Registry} :
    ∀ {ranges : List Range} {trees first second : List Tree},
      registry.ResolvesAll ranges trees first → registry.ResolvesAll ranges trees second →
        first = second
  | _, _, _, _, .nil _, other => by
    cases other
    rfl
  | _, _, _, _, .cons here others, other => by
    cases other with
    | cons here' others' => rw [here.unique here', others.unique others']

end

mutual

/-- A tree is resolved by resolving its tokens. -/
theorem resolves_graft {registry : Registry} {ranges : List Range} {g : String → Tree} :
    ∀ tree : Tree, (∀ text, .token text ∈ tree.leaves →
      registry.Resolves ranges (.token text) (g text)) →
        registry.Resolves ranges tree (tree.graft g)
  | .token text, each => each text List.mem_cons_self
  | .separator s, _ => .separator ranges s
  | .group combinator children, each => .group combinator (resolvesAll_graft children each)
  | .repeated body m, each => .repeated m (resolves_graft body each)

theorem resolvesAll_graft {registry : Registry} {ranges : List Range} {g : String → Tree} :
    ∀ trees : List Tree, (∀ text, .token text ∈ Tree.childLeaves trees →
      registry.Resolves ranges (.token text) (g text)) →
        registry.ResolvesAll ranges trees (Tree.childGraft g trees)
  | [], _ => .nil ranges
  | tree :: trees, each =>
    .cons (resolves_graft tree fun text leaf => each text (List.mem_append_left _ leaf))
      (resolvesAll_graft trees fun text leaf => each text (List.mem_append_right _ leaf))

end

/-! ### Resolvable grammars -/

/-- The tokens that a run leads to through definitions. -/
inductive Reaches (registry : Registry) (items : List Lexeme) : String → Prop
  | here {text : String} (member : .token text ∈ items) : Reaches registry items text
  | behind {text text' : String} {reference : Reference} {definition : Definition}
      {inner : List Lexeme} (reached : Reaches registry items text)
      (parsed : Reference.parse text = .ok reference)
      (composed : registry.Composed reference definition)
      (lexed : Lexeme.ofGrammar definition.grammar = .ok inner) (member : .token text' ∈ inner) :
      Reaches registry items text'

/-- A key whose definition names another key. -/
def Opens (registry : Registry) (key key' : String) : Prop :=
  ∃ definition inner text reference, registry.find? key = some definition ∧
    definition.isPrimitive = false ∧ Lexeme.ofGrammar definition.grammar = .ok inner ∧
      .token text ∈ inner ∧ Reference.parse text = .ok reference ∧
        reference.isKeyword = false ∧ reference.key = key'

/-- Runs whose references, and those behind their definitions, can all be replaced. -/
structure Resolvable (registry : Registry) (items : List Lexeme) : Prop where
  parses : ∀ text, registry.Reaches items text → ∃ reference, Reference.parse text = .ok reference
  registered : ∀ text reference, registry.Reaches items text →
    Reference.parse text = .ok reference →
      reference.isKeyword = true ∨ registry.contains reference.key = true
  acyclic : ∀ text reference, registry.Reaches items text →
    Reference.parse text = .ok reference → reference.isKeyword = false →
      ¬ Relation.TransGen registry.Opens reference.key reference.key
  accepted : ∀ text reference definition, registry.Reaches items text →
    Reference.parse text = .ok reference → registry.Composed reference definition →
      ∃ inner body, Lexeme.ofGrammar definition.grammar = .ok inner ∧
        Tree.ofLexemes inner = .ok body ∧ inner ≠ [.slash]

/-! ### Resolving a run -/

open ValueGrammar.Tree

/-- A token is replaced by an operand whose tree resolves it. -/
structure Replaces (registry : Registry) (chain : List String) (ranges : List Range) (text : String)
    (core : Core) (tree : Tree) : Prop where
  visited : ∃ reference, Reference.parse text = .ok reference ∧
    registry.replace chain (reference.narrowedBy ranges) [] = .ok ⟨core.lexemes, []⟩
  stands : StandsFor core tree
  resolves : registry.Resolves ranges (.token text) tree

variable {registry : Registry} {chain : List String} {ranges : List Range} {items : List Lexeme}

theorem walk_splice {f : String → Core} {g : String → Tree}
    (each : ∀ text, .token text ∈ items → registry.Replaces chain ranges text (f text) (g text)) :
    Substitution.walk (registry.replace chain) ranges items [] = .ok ⟨splice f items, []⟩ := by
  induction items with
  | nil => rfl
  | cons x rest ih =>
    have later := ih fun text member => each text (List.mem_cons_of_mem x member)
    have head : Substitution.replaced (registry.replace chain) ranges x [] =
        .ok ⟨spliceLexeme f x, []⟩ := by
      cases x with
      | token text =>
        obtain ⟨reference, parsed, visited⟩ := (each text List.mem_cons_self).visited
        rw [Substitution.replaced, parsed]
        exact visited
      | _ => rfl
    rw [Substitution.walk_cons]
    exact bind_eq_ok.mpr ⟨_, head, bind_eq_ok.mpr ⟨_, later, rfl⟩⟩

/-- A replaced definition is an operand again, put between brackets if it has more than one
lexeme. -/
theorem enclose_splice {items : List Lexeme} {body : Tree} (built : ofLexemes items = .ok body)
    (nonempty : items ≠ []) (notSlash : items ≠ [.slash]) {f : String → Core} {g : String → Tree}
    (stands : ∀ text, .token text ∈ items → StandsFor (f text) (g text))
    (grafted : ofLexemes (splice f items) = .ok (body.graft g)) :
    ∃ core, Substitution.enclose (splice f items) = core.lexemes ∧
      StandsFor core (body.graft g) := by
  unfold ofLexemes at built grafted
  split at built
  · next balanced =>
    split at grafted
    · next balanced' =>
      unfold Substitution.enclose
      by_cases several : 1 < (splice f items).length
      · rw [if_pos several]
        exact ⟨.brackets (splice f items), rfl, balanced', grafted, ofBalanced_ne_separator grafted⟩
      · rw [if_neg several]
        cases items with
        | nil => exact absurd rfl nonempty
        | cons x rest =>
          have whole : splice f (x :: rest) = spliceLexeme f x ++ splice f rest := rfl
          have first := List.length_pos_iff.mpr (spliceLexeme_ne_nil f x)
          have alone : rest = [] := by
            apply splice_eq_nil (f := f)
            apply List.eq_nil_of_length_eq_zero
            rw [whole, List.length_append] at several
            omega
          subst alone
          rcases single_of_built balanced built with ⟨text, rfl, rfl⟩ | rfl
          · refine ⟨f text, ?_, stands text List.mem_cons_self⟩
            rw [whole]
            exact List.append_nil _
          · exact absurd rfl notSlash
    · cases grafted
  · cases built

/-- Where every token of a run is replaced by an operand that resolves it, the run is replaced by
one whose tree resolves the tree of the run; put between brackets if need be, it is an operand. -/
theorem walk_resolves {body : Tree} (built : ofLexemes items = .ok body)
    (each : ∀ text, .token text ∈ items → ∃ core tree, registry.Replaces chain ranges text core tree) :
    ∃ items' tree,
      Substitution.walk (registry.replace chain) ranges items [] = .ok ⟨items', []⟩ ∧
        ofLexemes items' = .ok tree ∧ registry.Resolves ranges body tree ∧
          (items ≠ [] → items ≠ [.slash] →
            ∃ core, Substitution.enclose items' = core.lexemes ∧ StandsFor core tree) := by
  have chosen (text : String) : ∃ core tree, .token text ∈ items →
      registry.Replaces chain ranges text core tree := by
    by_cases member : .token text ∈ items
    · obtain ⟨core, tree, replaces⟩ := each text member
      exact ⟨core, tree, fun _ => replaces⟩
    · exact ⟨.slash, .separator .slash, fun inside => absurd inside member⟩
  choose f g replaces using chosen
  have stands : ∀ text, .token text ∈ items → StandsFor (f text) (g text) :=
    fun text member => (replaces text member).stands
  have grafted : ofLexemes (splice f items) = .ok (body.graft g) := by
    unfold ofLexemes at built ⊢
    split at built
    · next balanced =>
      rw [isBalanced_splice (fun text member => (stands text member).sound), if_pos balanced]
      exact ofBalanced_splice balanced built stands
    · cases built
  refine ⟨splice f items, body.graft g, walk_splice replaces, grafted, ?_, ?_⟩
  · apply resolves_graft
    intro text leaf
    exact (replaces text (isLexeme_of_mem_leaves built _ leaf)).resolves
  · intro nonempty notSlash
    exact enclose_splice built nonempty notSlash stands grafted

theorem ofGrammar_ne_nil {definition : Definition} (replaced : definition.isPrimitive = false)
    {items : List Lexeme} (lexed : Lexeme.ofGrammar definition.grammar = .ok items) : items ≠ [] := by
  intro empty
  subst empty
  rcases Lexeme.readAll_eq_ok (Lexeme.ofGrammar_eq_ok.mp lexed) with ⟨blank, -⟩ | ⟨_, _, _, _, _, eq⟩
  · have trimmed : Text.trim definition.grammar = "" := by
      unfold Text.trim Text.trimChars
      rw [blank]
      rfl
    rw [Definition.isPrimitive, trimmed] at replaced
    cases replaced
  · cases eq

theorem isFinal_narrowedBy {registry : Registry} (reference : Reference) (ranges : List Range) :
    registry.isFinal (reference.narrowedBy ranges) = registry.isFinal reference := by
  rw [isFinal, isFinal, Reference.isKeyword_narrowedBy, Reference.key_narrowedBy]

/-- Further ranges do not change what a reference stands for. -/
theorem composed_narrowedBy {reference : Reference} {definition : Definition}
    {ranges : List Range} : registry.Composed (reference.narrowedBy ranges) definition ↔
      registry.Composed reference definition := by
  have named := Reference.isKeyword_narrowedBy reference ranges
  have key := Reference.key_narrowedBy reference ranges
  constructor
  · intro composed
    exact ⟨named ▸ composed.named, key ▸ composed.found, composed.replaced⟩
  · intro composed
    exact ⟨named.trans composed.named, key.symm ▸ composed.found, composed.replaced⟩

/-- A composed reference is replaced by its resolved definition. -/
theorem replaces_of_composed {text : String} {reference : Reference} {definition : Definition}
    (parsed : Reference.parse text = .ok reference)
    (composed : registry.Composed reference definition) (closed : reference.key ∉ chain)
    {inner : List Lexeme} {body : Tree} (lexed : Lexeme.ofGrammar definition.grammar = .ok inner)
    (built : ofLexemes inner = .ok body) (notSlash : inner ≠ [.slash])
    (each : ∀ text', .token text' ∈ inner → ∃ core tree,
      registry.Replaces (chain ++ [reference.key]) (reference.narrowedBy ranges).ranges text' core
        tree) :
    ∃ core tree, registry.Replaces chain ranges text core tree := by
  obtain ⟨items', tree, walked, -, resolves, operand⟩ := walk_resolves built each
  obtain ⟨core, enclosed, stands⟩ :=
    operand (ofGrammar_ne_nil composed.replaced lexed) notSlash
  refine ⟨core, tree, ⟨reference, parsed, ?_⟩, stands, .opened parsed composed lexed built resolves⟩
  have key := Reference.key_narrowedBy reference ranges
  rw [replace_of_composed (composed_narrowedBy.mpr composed) (key.symm ▸ closed), key]
  refine bind_eq_ok.mpr ⟨inner, lexed, bind_eq_ok.mpr ⟨_, walked, ?_⟩⟩
  rw [← enclosed]
  rfl

theorem replaces_of_isFinal {text : String} {reference : Reference}
    (parsed : Reference.parse text = .ok reference) (final : registry.isFinal reference = true) :
    ∃ core tree, registry.Replaces chain ranges text core tree := by
  have final' : registry.isFinal (reference.narrowedBy ranges) = true := by
    rw [isFinal_narrowedBy]
    exact final
  have solid : ∀ s, Tree.token (reference.narrowedBy ranges).text ≠ .separator s := by
    intro s same
    cases same
  exact ⟨.token (reference.narrowedBy ranges).text, _,
    ⟨reference, parsed, replace_of_isFinal final' chain []⟩, ⟨trivial, rfl, solid⟩,
    .kept parsed final⟩

/-- Every token that a resolvable run leads to is replaced. The definitions on the chain lead to
its key; so, without a cycle, its own definition is not on the chain yet. -/
theorem Resolvable.replaces (resolvable : registry.Resolvable items) (chain : List String)
    {text : String} (reached : registry.Reaches items text)
    (leads : ∀ reference, Reference.parse text = .ok reference → reference.isKeyword = false →
      ∀ key ∈ chain, Relation.TransGen registry.Opens key reference.key) (ranges : List Range) :
    ∃ core tree, registry.Replaces chain ranges text core tree := by
  induction size : registry.unopened chain using Nat.strongRecOn generalizing chain text ranges with
  | ind n ih =>
    subst size
    obtain ⟨reference, parsed⟩ := resolvable.parses text reached
    by_cases final : registry.isFinal reference = true
    · exact replaces_of_isFinal parsed final
    · have named : reference.isKeyword = false := by
        rw [Bool.eq_false_iff]
        intro keyword
        exact final (by simp [isFinal, keyword])
      have registered : registry.contains reference.key = true := by
        rcases resolvable.registered text reference reached parsed with keyword | registered
        · rw [named] at keyword
          cases keyword
        · exact registered
      obtain ⟨definition, found⟩ := Option.isSome_iff_exists.mp registered
      have replaced : definition.isPrimitive = false := by
        rw [Bool.eq_false_iff]
        intro primitive
        exact final (by simp [isFinal, found, primitive])
      have composed : registry.Composed reference definition := ⟨named, found, replaced⟩
      have leadsHere := leads reference parsed named
      have closed : reference.key ∉ chain := fun member =>
        resolvable.acyclic text reference reached parsed named (leadsHere _ member)
      obtain ⟨inner, body, lexed, built, notSlash⟩ :=
        resolvable.accepted text reference definition reached parsed composed
      apply replaces_of_composed parsed composed closed lexed built notSlash
      intro text' member
      apply ih _ (unopened_lt found closed) _ (reached.behind parsed composed lexed member) _ _ rfl
      intro reference' parsed' named' key onChain
      have opens : registry.Opens reference.key reference'.key :=
        ⟨definition, inner, text', reference', found, replaced, lexed, member, parsed', named', rfl⟩
      rcases List.mem_append.mp onChain with before | last
      · exact (leadsHere key before).tail opens
      · rw [List.mem_singleton.mp last]
        exact .single opens

/-! ### Main result -/

/-- Substitution preserves grouping: the tree of the substituted grammar is the tree of the
grammar, resolved. -/
theorem substitute_preserves_grouping {registry : Registry} {grammar : String}
    {items : List Lexeme} {tree : Tree} (lexed : Lexeme.ofGrammar grammar = .ok items)
    (read : Tree.ofLexemes items = .ok tree) (resolvable : registry.Resolvable items) :
    ∃ substituted tree', registry.substitute grammar = .ok ⟨substituted, []⟩ ∧
      Tree.ofLexemes substituted = .ok tree' ∧ registry.Resolves [] tree tree' ∧
        ∀ other, registry.Resolves [] tree other → other = tree' := by
  have each : ∀ text, .token text ∈ items → ∃ core tree, registry.Replaces [] [] text core tree := by
    intro text member
    apply resolvable.replaces [] (.here member)
    intro reference _ _ key onChain
    cases onChain
  obtain ⟨substituted, tree', walked, built, resolves, -⟩ := walk_resolves read each
  refine ⟨substituted, tree', ?_, built, resolves, fun other second => second.unique resolves⟩
  unfold substitute
  exact bind_eq_ok.mpr ⟨items, lexed, walked⟩

/-- A length, and a size that is a length or `auto`. -/
def sizes : Registry :=
  ⟨[⟨"<length>", "<length>", none⟩, ⟨"<size>", "<length> | auto", none⟩], by decide⟩

theorem found_sizes {key : String} {definition : Definition}
    (found : sizes.find? key = some definition) (replaced : definition.isPrimitive = false) :
    key = "<size>" ∧ definition.grammar = "<length> | auto" := by
  obtain ⟨member, same⟩ := find?_eq_some found
  simp only [sizes, List.mem_cons, List.not_mem_nil, or_false] at member
  rcases member with eq | eq
  · subst eq
    have primitive : (⟨"<length>", "<length>", none⟩ : Definition).isPrimitive = true := by
      decide +kernel
    rw [primitive] at replaced
    cases replaced
  · subst eq
    exact ⟨same.symm, rfl⟩

theorem lexed_size : Lexeme.ofGrammar "<length> | auto" =
    .ok [.token "<length>", .bar, .token "auto"] := by
  have computed : (Lexeme.ofGrammar "<length> | auto").toOption.any
      (· == [.token "<length>", .bar, .token "auto"]) = true := by decide +kernel
  obtain ⟨items, lexed, same⟩ := exists_ok_of_any computed
  rw [lexed, eq_of_beq same]

theorem opens_sizes {key key' : String} (opens : sizes.Opens key key') :
    key = "<size>" ∧ key' = "<length>" := by
  obtain ⟨definition, inner, text, reference, found, replaced, lexed, member, parsed, named, rfl⟩ :=
    opens
  obtain ⟨rfl, grammar⟩ := found_sizes found replaced
  rw [grammar, lexed_size] at lexed
  cases lexed
  have keys : ∀ text ∈ ["<length>", "auto"], (Reference.parse text).toOption.all
      (fun reference => reference.isKeyword || reference.key == "<length>") = true := by
    decide +kernel
  have key := keys text (by simpa using member)
  rw [parsed] at key
  simp only [Except.toOption, Option.all_some, named, Bool.false_or, beq_iff_eq] at key
  exact ⟨rfl, key⟩

theorem resolvable_sizes : sizes.Resolvable [.token "<size [0,5]>", .multiplier .commaList] := by
  have reached {text : String} (reached : sizes.Reaches
      [.token "<size [0,5]>", .multiplier .commaList] text) :
      text ∈ ["<size [0,5]>", "<length>", "auto"] := by
    cases reached with
    | here member =>
      have same : text = "<size [0,5]>" := by simpa using member
      rw [same]
      exact List.mem_cons_self
    | behind _ _ composed lexed member =>
      rw [(found_sizes composed.found composed.replaced).2, lexed_size] at lexed
      cases lexed
      simp only [List.mem_cons, Lexeme.token.injEq, reduceCtorEq, List.not_mem_nil, or_false,
        false_or] at member
      simp [member]
  have parses : ∀ text ∈ ["<size [0,5]>", "<length>", "auto"],
      (Reference.parse text).toOption.any (fun reference =>
        reference.isKeyword || sizes.contains reference.key) = true := by
    decide +kernel
  constructor
  · intro text reaches
    obtain ⟨reference, parsed, -⟩ := exists_ok_of_any (parses text (reached reaches))
    exact ⟨reference, parsed⟩
  · intro text reference reaches parsed
    have registered := parses text (reached reaches)
    rw [parsed] at registered
    exact (Bool.or_eq_true _ _).mp registered
  · intro text reference _ _ _ cycle
    have ends {key key' : String} (path : Relation.TransGen sizes.Opens key key') :
        key = "<size>" ∧ key' = "<length>" := by
      induction path with
      | single opens => exact opens_sizes opens
      | tail _ opens ih => exact ⟨ih.1, (opens_sizes opens).2⟩
    obtain ⟨here, there⟩ := ends cycle
    rw [here] at there
    exact absurd there (by decide)
  · intro text reference definition _ _ composed
    have read : (Tree.ofLexemes [.token "<length>", .bar, .token "auto"]).toOption.any
        (fun _ => true) = true := by decide +kernel
    obtain ⟨body, built, -⟩ := exists_ok_of_any read
    refine ⟨[.token "<length>", .bar, .token "auto"], body, ?_, built, by decide⟩
    rw [(found_sizes composed.found composed.replaced).2]
    exact lexed_size

/-- The range of a size is handed down, and brackets keep the commas outside the choice. -/
theorem substitute_preserves_grouping_sizes : ∃ tree tree',
    Tree.ofLexemes [.token "<size [0,5]>", .multiplier .commaList] = .ok tree ∧
      sizes.substitute "<size [0,5]>#" =
        .ok ⟨[.opening, .token "<length [0,5]>", .bar, .token "auto", .closing,
          .multiplier .commaList], []⟩ ∧
      Tree.ofLexemes [.opening, .token "<length [0,5]>", .bar, .token "auto", .closing,
        .multiplier .commaList] = .ok tree' ∧ sizes.Resolves [] tree tree' := by
  have lexed : (Lexeme.ofGrammar "<size [0,5]>#").toOption.any
      (· == [.token "<size [0,5]>", .multiplier .commaList]) = true := by decide +kernel
  have read : (Tree.ofLexemes [.token "<size [0,5]>", .multiplier .commaList]).toOption.any
      (fun _ => true) = true := by decide +kernel
  have replaced : (sizes.substitute "<size [0,5]>#").toOption.any (· ==
      ⟨[.opening, .token "<length [0,5]>", .bar, .token "auto", .closing,
        .multiplier .commaList], []⟩) = true := by decide +kernel
  obtain ⟨items, lexed, same⟩ := exists_ok_of_any lexed
  obtain ⟨tree, read, -⟩ := exists_ok_of_any read
  obtain ⟨substitution, replaced, eq⟩ := exists_ok_of_any replaced
  rw [eq_of_beq same] at lexed
  rw [eq_of_beq eq] at replaced
  obtain ⟨substituted, tree', substitutes, built, resolves, -⟩ :=
    substitute_preserves_grouping lexed read resolvable_sizes
  rw [replaced] at substitutes
  cases substitutes
  exact ⟨tree, tree', read, replaced, built, resolves⟩

end Registry

end ValueGrammar
