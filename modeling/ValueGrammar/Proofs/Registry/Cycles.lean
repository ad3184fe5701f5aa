import Mathlib.Data.List.Chain
import Mathlib.Data.List.Nodup
import ValueGrammar.Proofs.Registry.Refused

/-!
Cycles of definitions. Substitution opens no more definitions inside each other than there are, so it
ends. It is refused for a cycle exactly if the grammar leads to one, and the chain it shows is a way
from a token of the grammar around the cycle. A definition that is met twice on different ways is no
cycle.
-/
namespace ValueGrammar

theorem Reference.not_cyclic_of_parse {raw key : String} {chain : List String} {e : Error}
    (failed : parse raw = .error e) : e ≠ .cyclicDefinition key chain := by
  obtain ⟨cause, rfl⟩ := malformed_of_parse failed
  exact fun same => by cases same

theorem Lexeme.not_cyclic_of_ofGrammar {grammar key : String} {chain : List String} {e : Error}
    (failed : ofGrammar grammar = .error e) : e ≠ .cyclicDefinition key chain := by
  obtain ⟨cause, rfl⟩ := malformed_of_ofGrammar failed
  exact fun same => by cases same

namespace Registry

variable {registry : Registry}

/-! ### Depth -/

/-- One level of a replacement: `deeper` replaces the references of a definition that is opened. -/
def replaceBy (registry : Registry)
    (deeper : List String → Reference → List String → Except Error Substitution)
    (chain : List String) (reference : Reference) (unknown : List String) :
    Except Error Substitution :=
  if reference.isKeyword then .ok (Substitution.keep reference unknown)
  else
    match registry.find? reference.key with
    | none => .ok (Substitution.keep reference (Substitution.note unknown reference.key))
    | some definition =>
      if definition.isPrimitive then .ok (Substitution.keep reference unknown)
      else if reference.key ∈ chain then
        .error (.cyclicDefinition reference.key (chain ++ [reference.key]))
      else do
        let items ← Lexeme.ofGrammar definition.grammar
        let inner ← Substitution.walk (deeper (chain ++ [reference.key])) reference.ranges items unknown
        return ⟨Substitution.enclose inner.items, inner.unknown⟩

/-- The first levels of a replacement; `beyond` takes over below them. -/
def replaceWithin (registry : Registry)
    (beyond : List String → Reference → List String → Except Error Substitution) :
    Nat → List String → Reference → List String → Except Error Substitution
  | 0 => beyond
  | depth + 1 => registry.replaceBy (registry.replaceWithin beyond depth)

def substituteWithin (registry : Registry)
    (beyond : List String → Reference → List String → Except Error Substitution) (depth : Nat)
    (grammar : String) : Except Error Substitution := do
  let items ← Lexeme.ofGrammar grammar
  Substitution.walk (registry.replaceWithin beyond depth []) [] items []

/-- With a level for every definition that can still be opened, and one more, nothing is left to be
done below them. -/
theorem replaceWithin_eq
    (beyond : List String → Reference → List String → Except Error Substitution) {depth : Nat}
    {chain : List String} (enough : registry.unopened chain < depth) :
    registry.replaceWithin beyond depth chain = registry.replace chain := by
  induction depth generalizing chain with
  | zero => cases enough
  | succ depth ih =>
    funext reference unknown
    rw [replaceWithin, replaceBy, replace]
    by_cases keyword : reference.isKeyword = true
    · rw [if_pos keyword, if_pos keyword]
    · rw [if_neg keyword, if_neg keyword]
      dsimp only
      split
      · next none => rw [none]
      · next definition found =>
        rw [found]
        dsimp only
        by_cases primitive : definition.isPrimitive = true
        · rw [if_pos primitive, if_pos primitive]
        · rw [if_neg primitive, if_neg primitive]
          by_cases onChain : reference.key ∈ chain
          · rw [if_pos onChain, dif_pos onChain]
          · have fewer := unopened_lt found onChain
            rw [if_neg onChain, dif_neg onChain, ih (by omega)]

theorem unopened_nil (registry : Registry) : registry.unopened [] = registry.size := by
  simp [unopened, size]

theorem substituteWithin_eq
    (beyond : List String → Reference → List String → Except Error Substitution)
    (grammar : String) :
    registry.substituteWithin beyond (registry.size + 1) grammar = registry.substitute grammar := by
  have enough : registry.unopened [] < registry.size + 1 := by
    rw [unopened_nil]
    exact Nat.lt_succ_self _
  rw [substituteWithin, replaceWithin_eq beyond enough, substitute]

/-! ### Ways around a cycle -/

theorem transGen_of_isChain {α : Type} {R : α → α → Prop} {a b : α} {between : List α}
    (steps : (a :: between ++ [b]).IsChain R) : Relation.TransGen R a b := by
  induction between generalizing a with
  | nil =>
    rw [List.cons_append, List.nil_append, List.isChain_cons_cons] at steps
    exact .single steps.1
  | cons c between ih =>
    rw [List.cons_append, List.cons_append, List.isChain_cons_cons] at steps
    exact .head steps.1 (ih steps.2)

/-- What a chain shows of a cycle: a way through distinct definitions, each of which names the next
one, from a composed token of a run to a key that is on the way already. -/
structure ShowsCycle (registry : Registry) (items : List Lexeme) (key : String)
    (way : List String) : Prop where
  distinct : way.Nodup
  repeated : key ∈ way
  opens : (way ++ [key]).IsChain registry.Opens
  starts : ∃ text reference definition, .token text ∈ items ∧
    Reference.parse text = .ok reference ∧ registry.Composed reference definition ∧
      way.head? = some reference.key

/-- Around a cycle, definitions lead back to the key that is repeated. -/
theorem ShowsCycle.leads_back {items : List Lexeme} {key : String} {way : List String}
    (shows : registry.ShowsCycle items key way) : Relation.TransGen registry.Opens key key := by
  obtain ⟨front, back, rfl⟩ := List.append_of_mem shows.repeated
  have steps := shows.opens
  rw [List.append_assoc, List.isChain_append] at steps
  exact transGen_of_isChain steps.2.1

/-- The chain of a refusal goes on from the definitions that are open. -/
theorem Refuses.exists_way {chain : List String} {items : List Lexeme} {e : Error}
    (refuses : registry.Refuses chain items e) {key : String} {shown : List String}
    (cyclic : e = .cyclicDefinition key shown) (distinct : chain.Nodup)
    (opens : chain.IsChain registry.Opens)
    (leads : ∀ last ∈ chain.getLast?, ∀ text reference, .token text ∈ items →
      Reference.parse text = .ok reference → reference.isKeyword = false →
        registry.Opens last reference.key) :
    ∃ more, shown = chain ++ more ++ [key] ∧ (chain ++ more).Nodup ∧ key ∈ chain ++ more ∧
      (chain ++ more ++ [key]).IsChain registry.Opens ∧
      ∃ text reference definition, .token text ∈ items ∧ Reference.parse text = .ok reference ∧
        registry.Composed reference definition ∧ (more ++ [key]).head? = some reference.key := by
  induction refuses with
  | unread _ failed => exact absurd cyclic (Reference.not_cyclic_of_parse failed)
  | unlexed _ _ _ failed => exact absurd cyclic (Lexeme.not_cyclic_of_ofGrammar failed)
  | @cyclic chain items text reference definition member parsed composed onChain =>
    cases cyclic
    refine ⟨[], by simp, by simpa using distinct, by simpa using onChain, ?_,
      text, reference, definition, member, parsed, composed, rfl⟩
    rw [List.append_nil, List.isChain_append]
    refine ⟨opens, List.isChain_singleton _, fun last atEnd next first => ?_⟩
    cases first
    exact leads last atEnd text reference member parsed composed.named
  | @behind chain items inner text reference definition e member parsed composed closed lexed _ ih =>
    have distinct' : (chain ++ [reference.key]).Nodup := by
      rw [← List.concat_eq_append]
      exact distinct.concat closed
    have opens' : (chain ++ [reference.key]).IsChain registry.Opens := by
      rw [List.isChain_append]
      refine ⟨opens, List.isChain_singleton _, fun last atEnd next first => ?_⟩
      cases first
      exact leads last atEnd text reference member parsed composed.named
    have leads' : ∀ last ∈ (chain ++ [reference.key]).getLast?, ∀ text reference,
        .token text ∈ inner → Reference.parse text = .ok reference → reference.isKeyword = false →
          registry.Opens last reference.key := by
      intro last atEnd text' reference' member' parsed' named'
      rw [List.getLast?_concat] at atEnd
      cases atEnd
      exact ⟨definition, inner, text', reference', composed.found, composed.replaced, lexed, member',
        parsed', named', rfl⟩
    obtain ⟨more, same, distinctWay, repeated, opensWay, -⟩ := ih cyclic distinct' opens' leads'
    simp only [List.append_assoc, List.singleton_append] at same distinctWay repeated opensWay
    refine ⟨reference.key :: more, ?_, distinctWay, repeated, ?_, text, reference, definition, member,
      parsed, composed, rfl⟩
    · simpa using same
    · simpa using opensWay

/-- A refusal for a cycle shows one. -/
theorem showsCycle_of_substitute {grammar key : String} {chain : List String}
    (refused : registry.substitute grammar = .error (.cyclicDefinition key chain)) :
    ∃ items way, Lexeme.ofGrammar grammar = .ok items ∧ chain = way ++ [key] ∧
      registry.ShowsCycle items key way := by
  rcases bind_eq_error.mp refused with unread | ⟨items, lexed, unwalked⟩
  · exact absurd rfl (Lexeme.not_cyclic_of_ofGrammar unread)
  · obtain ⟨way, same, distinct, repeated, opens, text, reference, definition, member, parsed, composed,
      starts⟩ := (refuses_of_walk [] unwalked).exists_way rfl List.nodup_nil .nil
        fun last atEnd => by cases atEnd
    rw [List.nil_append] at same distinct repeated opens
    refine ⟨items, way, lexed, same, distinct, repeated, opens, text, reference, definition, member,
      parsed, composed, ?_⟩
    cases way with
    | nil => cases repeated
    | cons first way => exact starts

/-! ### Grammars that unfold -/

/-- The definitions that a run unfolds lead nowhere in the end. -/
theorem Unfolds.acc {way : List Reference} {items : List Lexeme} {leaves : List Leaf}
    (unfolds : registry.Unfolds way items leaves) :
    ∀ text reference, .token text ∈ items → Reference.parse text = .ok reference →
      reference.isKeyword = false → Acc (Function.swap registry.Opens) reference.key := by
  induction unfolds with
  | nil =>
    intro text reference member
    cases member
  | other plain _ ih =>
    intro text reference member parsed named
    rcases List.mem_cons.mp member with same | later
    · exact absurd same.symm (plain text)
    · exact ih text reference later parsed named
  | kept parsed stays _ ih =>
    intro text' reference' member parsed' named
    rcases List.mem_cons.mp member with same | later
    · cases same
      rw [parsed] at parsed'
      cases parsed'
      refine Acc.intro _ fun key' opens => ?_
      obtain ⟨definition, -, -, -, found, replaced, -⟩ := opens
      exact absurd ⟨named, found, replaced⟩ (stays definition)
    · exact ih text' reference' later parsed' named
  | opened parsed composed lexed _ _ ihInside ihLater =>
    intro text' reference' member parsed' named
    rcases List.mem_cons.mp member with same | later
    · cases same
      rw [parsed] at parsed'
      cases parsed'
      refine Acc.intro _ fun key' opens => ?_
      obtain ⟨definition', inner', text', reference', found, replaced, lexed', member', parsed', named',
        rfl⟩ := opens
      cases composed.unique ⟨named, found, replaced⟩
      rw [lexed] at lexed'
      cases lexed'
      exact ihInside text' reference' member' parsed' named'
    · exact ihLater text' reference' later parsed' named

theorem not_rel_self_of_acc {α : Type} {R : α → α → Prop} {a : α} (accessible : Acc R a) :
    ¬ R a a := by
  induction accessible with
  | intro a _ ih => exact fun loop => ih a loop loop

/-- A run that unfolds leads to no cycle. -/
theorem Unfolds.acyclic {way : List Reference} {items : List Lexeme} {leaves : List Leaf}
    (unfolds : registry.Unfolds way items leaves) {text : String} {reference : Reference}
    (reached : registry.Reaches items text) (parsed : Reference.parse text = .ok reference)
    (named : reference.isKeyword = false) :
    ¬ Relation.TransGen registry.Opens reference.key reference.key := by
  have accessible : Acc (Function.swap registry.Opens) reference.key := by
    induction reached generalizing reference with
    | here member => exact unfolds.acc _ reference member parsed named
    | behind _ parsed' composed lexed member ih =>
      apply (ih parsed' composed.named).inv
      exact ⟨_, _, _, reference, composed.found, composed.replaced, lexed, member, parsed, named, rfl⟩
  rw [← Relation.transGen_swap]
  exact not_rel_self_of_acc accessible.transGen

/-! ### Readable grammars -/

/-- Runs whose tokens, and those behind their definitions, can all be read, and the definitions as
well. -/
structure Readable (registry : Registry) (items : List Lexeme) : Prop where
  parses : ∀ text, registry.Reaches items text → ∃ reference, Reference.parse text = .ok reference
  lexes : ∀ text reference definition, registry.Reaches items text →
    Reference.parse text = .ok reference → registry.Composed reference definition →
      ∃ inner, Lexeme.ofGrammar definition.grammar = .ok inner

theorem Reaches.of_inner {items inner : List Lexeme} {text text' : String} {reference : Reference}
    {definition : Definition} (reached : registry.Reaches items text)
    (parsed : Reference.parse text = .ok reference)
    (composed : registry.Composed reference definition)
    (lexed : Lexeme.ofGrammar definition.grammar = .ok inner)
    (inside : registry.Reaches inner text') : registry.Reaches items text' := by
  induction inside with
  | here member => exact .behind reached parsed composed lexed member
  | behind _ parsed' composed' lexed' member ih => exact .behind ih parsed' composed' lexed' member

/-- Whether tokens and the definitions behind them can be read, with no other tokens in these. -/
def covers (registry : Registry) (texts : List String) : Bool :=
  texts.all fun text => (Reference.parse text).toOption.any fun reference =>
    registry.isFinal reference || (registry.find? reference.key).all fun definition =>
      (Lexeme.ofGrammar definition.grammar).toOption.any fun inner =>
        (Lexeme.tokens inner).all fun text' => texts.contains text'

theorem exists_reference_of_covers {texts : List String} (covered : registry.covers texts = true)
    {text : String} (member : text ∈ texts) : ∃ reference, Reference.parse text = .ok reference ∧
      ∀ definition, registry.Composed reference definition → ∃ inner,
        Lexeme.ofGrammar definition.grammar = .ok inner ∧
          ∀ text', .token text' ∈ inner → text' ∈ texts := by
  obtain ⟨reference, parsed, readable⟩ := exists_ok_of_any (List.all_eq_true.mp covered text member)
  refine ⟨reference, parsed, fun definition composed => ?_⟩
  rw [composed.not_final, Bool.false_or, composed.found] at readable
  obtain ⟨inner, lexed, inside⟩ := exists_ok_of_any readable
  refine ⟨inner, lexed, fun text' member' => ?_⟩
  exact List.contains_iff_mem.mp (List.all_eq_true.mp inside text' (Lexeme.mem_tokens.mpr member'))

/-- A run is readable if its tokens are among some that can be read. -/
theorem Readable.of_covers {texts : List String} (covered : registry.covers texts = true)
    {items : List Lexeme} (start : ∀ text, .token text ∈ items → text ∈ texts) :
    registry.Readable items := by
  have stays : ∀ text, registry.Reaches items text → text ∈ texts := by
    intro text reached
    induction reached with
    | here member => exact start _ member
    | behind _ parsed composed lexed member ih =>
      obtain ⟨reference, parsed', inside⟩ := exists_reference_of_covers covered ih
      rw [parsed] at parsed'
      cases parsed'
      obtain ⟨inner, lexed', among⟩ := inside _ composed
      rw [lexed] at lexed'
      cases lexed'
      exact among _ member
  constructor
  · intro text reached
    obtain ⟨reference, parsed, -⟩ := exists_reference_of_covers covered (stays text reached)
    exact ⟨reference, parsed⟩
  · intro text reference definition reached parsed composed
    obtain ⟨reference', parsed', inside⟩ := exists_reference_of_covers covered (stays text reached)
    rw [parsed] at parsed'
    cases parsed'
    obtain ⟨inner, lexed, -⟩ := inside definition composed
    exact ⟨inner, lexed⟩

/-- All that can be wrong with a readable run is a cycle, and the key that is repeated is reached. -/
theorem Refuses.exists_cyclic {chain : List String} {items : List Lexeme} {e : Error}
    (refuses : registry.Refuses chain items e) (readable : registry.Readable items) :
    ∃ key shown, e = .cyclicDefinition key shown := by
  induction refuses with
  | unread member failed =>
    obtain ⟨reference, parsed⟩ := readable.parses _ (.here member)
    rw [failed] at parsed
    cases parsed
  | cyclic => exact ⟨_, _, rfl⟩
  | unlexed member parsed composed failed =>
    obtain ⟨inner, lexed⟩ := readable.lexes _ _ _ (.here member) parsed composed
    rw [failed] at lexed
    cases lexed
  | behind member parsed composed _ lexed _ ih =>
    have inside : ∀ {text}, registry.Reaches _ text → registry.Reaches _ text :=
      Reaches.of_inner (.here member) parsed composed lexed
    exact ih ⟨fun text reached => readable.parses text (inside reached),
      fun text reference definition reached => readable.lexes text reference definition
        (inside reached)⟩

/-- The key that a refusal repeats is that of a reached reference. -/
theorem Refuses.exists_reached {chain : List String} {items : List Lexeme} {e : Error}
    (refuses : registry.Refuses chain items e) {key : String} {shown : List String}
    (cyclic : e = .cyclicDefinition key shown) :
    ∃ text reference, registry.Reaches items text ∧ Reference.parse text = .ok reference ∧
      reference.isKeyword = false ∧ reference.key = key := by
  induction refuses with
  | unread _ failed => exact absurd cyclic (Reference.not_cyclic_of_parse failed)
  | unlexed _ _ _ failed => exact absurd cyclic (Lexeme.not_cyclic_of_ofGrammar failed)
  | cyclic member parsed composed _ =>
    cases cyclic
    exact ⟨_, _, .here member, parsed, composed.named, rfl⟩
  | behind member parsed composed _ lexed _ ih =>
    obtain ⟨text, reference, reached, rest⟩ := ih cyclic
    exact ⟨text, reference, .of_inner (.here member) parsed composed lexed reached, rest⟩

/-! ### Main result -/

def LeadsToCycle (registry : Registry) (items : List Lexeme) : Prop :=
  ∃ text reference, registry.Reaches items text ∧ Reference.parse text = .ok reference ∧
    reference.isKeyword = false ∧ Relation.TransGen registry.Opens reference.key reference.key

/-- A run that leads to a cycle does not unfold. -/
theorem not_leadsToCycle_of_substitute {grammar : String} {items : List Lexeme}
    {substitution : Substitution} (lexed : Lexeme.ofGrammar grammar = .ok items)
    (substituted : registry.substitute grammar = .ok substitution) :
    ¬ registry.LeadsToCycle items := by
  intro given
  obtain ⟨text, reference, reached, parsed, named, cycle⟩ := given
  obtain ⟨items', leaves, lexed', unfolds, -⟩ := exists_unfolds_of_substitute substituted
  rw [lexed] at lexed'
  cases lexed'
  exact unfolds.acyclic reached parsed named cycle

theorem leadsToCycle_of_substitute {grammar key : String} {chain : List String}
    {items : List Lexeme} (lexed : Lexeme.ofGrammar grammar = .ok items)
    (refused : registry.substitute grammar = .error (.cyclicDefinition key chain)) :
    registry.LeadsToCycle items := by
  obtain ⟨items', way, -, -, shows⟩ := showsCycle_of_substitute refused
  rcases bind_eq_error.mp refused with unread | ⟨items'', lexed', unwalked⟩
  · exact absurd rfl (Lexeme.not_cyclic_of_ofGrammar unread)
  · rw [lexed] at lexed'
    cases lexed'
    obtain ⟨text, reference, reached, parsed, named, rfl⟩ :=
      (refuses_of_walk [] unwalked).exists_reached rfl
    exact ⟨text, reference, reached, parsed, named, shows.leads_back⟩

/-- Substitution ends at every registry and grammar: whatever was to happen inside of more definitions
than there are does not happen. A refusal for a cycle shows a way from a composed token of the grammar
around a cycle. Where everything can be read, it is refused exactly if the grammar leads to a cycle, so
definitions that are only met more than once are replaced. -/
theorem substitute_reports_cycles (registry : Registry) (grammar : String) :
    (∀ beyond, registry.substituteWithin beyond (registry.size + 1) grammar =
      registry.substitute grammar) ∧
    (∀ key chain, registry.substitute grammar = .error (.cyclicDefinition key chain) →
      ∃ items way, Lexeme.ofGrammar grammar = .ok items ∧ chain = way ++ [key] ∧
        registry.ShowsCycle items key way) ∧
    ∀ items, Lexeme.ofGrammar grammar = .ok items → registry.Readable items →
      ((∃ key chain, registry.substitute grammar = .error (.cyclicDefinition key chain)) ↔
        registry.LeadsToCycle items) ∧
      ((∃ substitution, registry.substitute grammar = .ok substitution) ↔
        ¬ registry.LeadsToCycle items) := by
  refine ⟨fun beyond => substituteWithin_eq beyond grammar,
    fun key chain refused => showsCycle_of_substitute refused, fun items lexed readable => ?_⟩
  have cyclic : ∀ e, registry.substitute grammar = .error e →
      ∃ key chain, e = .cyclicDefinition key chain := by
    intro e refused
    rcases bind_eq_error.mp refused with unread | ⟨items', lexed', unwalked⟩
    · rw [lexed] at unread
      cases unread
    · rw [lexed] at lexed'
      cases lexed'
      exact (refuses_of_walk [] unwalked).exists_cyclic readable
  cases outcome : registry.substitute grammar with
  | ok substitution =>
    have none := not_leadsToCycle_of_substitute lexed outcome
    simp [none]
  | error e =>
    obtain ⟨key, chain, rfl⟩ := cyclic e outcome
    have cycle := leadsToCycle_of_substitute lexed outcome
    simp [cycle]

/-- A box that names its side twice, and a knot that leads back to itself. -/
def knotted : Registry :=
  ⟨[⟨"<length>", "<length>", none⟩, ⟨"<side>", "<length> | auto", none⟩,
    ⟨"<box>", "<side> <side>", none⟩, ⟨"<knot>", "<loop>", none⟩,
    ⟨"<loop>", "<side> | <knot>?", none⟩], by decide +kernel⟩

/-- The side is replaced wherever it is met; the knot is refused with the way around it. -/
theorem substitute_reports_cycles_knotted : ∃ items items',
    Lexeme.ofGrammar "<box> <side>" = .ok items ∧ ¬ knotted.LeadsToCycle items ∧
      (∃ substitution, knotted.substitute "<box> <side>" = .ok substitution) ∧
      Lexeme.ofGrammar "<box> <knot>" = .ok items' ∧ knotted.LeadsToCycle items' ∧
      knotted.substitute "<box> <knot>" =
        .error (.cyclicDefinition "<knot>" ["<knot>", "<loop>", "<knot>"]) ∧
      knotted.ShowsCycle items' "<knot>" ["<knot>", "<loop>"] := by
  have covered : knotted.covers
      ["<box>", "<side>", "<length>", "auto", "<knot>", "<loop>"] = true := by
    decide +kernel
  have lexedBox : (Lexeme.ofGrammar "<box> <side>").toOption.any
      (· == [.token "<box>", .token "<side>"]) = true := by
    decide +kernel
  have lexedKnot : (Lexeme.ofGrammar "<box> <knot>").toOption.any
      (· == [.token "<box>", .token "<knot>"]) = true := by
    decide +kernel
  have replaced : (knotted.substitute "<box> <side>").toOption.any (fun _ => true) = true := by
    decide +kernel
  have refused : (match knotted.substitute "<box> <knot>" with
      | .ok _ => false
      | .error e => e == .cyclicDefinition "<knot>" ["<knot>", "<loop>", "<knot>"]) = true := by
    decide +kernel
  obtain ⟨items, lexedBox, isBox⟩ := exists_ok_of_any lexedBox
  obtain ⟨items', lexedKnot, isKnot⟩ := exists_ok_of_any lexedKnot
  obtain ⟨substitution, replaced, -⟩ := exists_ok_of_any replaced
  cases eq_of_beq isBox
  cases eq_of_beq isKnot
  have cyclic : knotted.substitute "<box> <knot>" =
      .error (.cyclicDefinition "<knot>" ["<knot>", "<loop>", "<knot>"]) := by
    cases outcome : knotted.substitute "<box> <knot>" with
    | ok substitution' =>
      rw [outcome] at refused
      cases refused
    | error e =>
      rw [outcome] at refused
      rw [eq_of_beq refused]
  obtain ⟨-, -, onBox⟩ := substitute_reports_cycles knotted "<box> <side>"
  obtain ⟨-, shown, onKnot⟩ := substitute_reports_cycles knotted "<box> <knot>"
  have readableBox : knotted.Readable [.token "<box>", .token "<side>"] :=
    .of_covers covered (by simp)
  have readableKnot : knotted.Readable [.token "<box>", .token "<knot>"] :=
    .of_covers covered (by simp)
  obtain ⟨items, way, lexed, same, shows⟩ := shown _ _ cyclic
  rw [lexedKnot] at lexed
  cases lexed
  have ends : ["<knot>", "<loop>"] ++ ["<knot>"] = way ++ ["<knot>"] := same
  rw [← List.append_cancel_right ends] at shows
  exact ⟨_, _, lexedBox, (onBox _ lexedBox readableBox).2.mp ⟨substitution, replaced⟩,
    ⟨substitution, replaced⟩, lexedKnot, (onKnot _ lexedKnot readableKnot).1.mp ⟨_, _, cyclic⟩, cyclic,
    shows⟩

end Registry

end ValueGrammar
