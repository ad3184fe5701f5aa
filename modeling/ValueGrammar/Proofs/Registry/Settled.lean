import ValueGrammar.Proofs.Lexeme.Written
import ValueGrammar.Proofs.Pointwise
import ValueGrammar.Registry.Substitution

/-!
What substitution leaves. When every key has a definition, its result names keywords and primitive
symbols only, each written as it is read, and such a grammar is its own substitution.
-/
namespace ValueGrammar

namespace Substitution

/-! ### Walking along a run -/

/-- What stands for one lexeme. -/
def replaced (visit : Reference → List String → Except Error Substitution) (ranges : List Range) :
    Lexeme → List String → Except Error Substitution
  | .token raw, unknown => do
    let reference ← Reference.parse raw
    visit (reference.narrowedBy ranges) unknown
  | item, unknown => .ok ⟨[item], unknown⟩

def followedBy (front back : Substitution) : Substitution :=
  ⟨front.items ++ back.items, back.unknown⟩

variable {visit : Reference → List String → Except Error Substitution} {ranges : List Range}

/-- Lexemes that are no tokens stay. -/
theorem replaced_of_plain {x : Lexeme} (plain : ∀ text, x ≠ .token text) (unknown : List String) :
    replaced visit ranges x unknown = .ok ⟨[x], unknown⟩ := by
  cases x with
  | token text => exact absurd rfl (plain text)
  | _ => rfl

theorem walk_cons (x : Lexeme) (rest : List Lexeme) (unknown : List String) :
    walk visit ranges (x :: rest) unknown = do
      let head ← replaced visit ranges x unknown
      let tail ← walk visit ranges rest head.unknown
      return head.followedBy tail := by
  cases x with
  | token raw =>
    simp only [walk, replaced]
    cases Reference.parse raw with
    | error e => rfl
    | ok reference => rfl
  | _ => rfl

theorem walk_append (xs ys : List Lexeme) (unknown : List String) :
    walk visit ranges (xs ++ ys) unknown = do
      let front ← walk visit ranges xs unknown
      let back ← walk visit ranges ys front.unknown
      return front.followedBy back := by
  induction xs generalizing unknown with
  | nil =>
    rw [List.nil_append]
    change _ = (walk visit ranges ys unknown >>= fun back => Except.ok (followedBy ⟨[], unknown⟩ back))
    cases walk visit ranges ys unknown <;> rfl
  | cons x xs ih =>
    rw [List.cons_append, walk_cons, walk_cons]
    cases replaced visit ranges x unknown with
    | error e => rfl
    | ok head =>
      change (walk visit ranges (xs ++ ys) head.unknown >>= _) = _
      rw [ih]
      change _ = ((walk visit ranges xs head.unknown >>= fun tail => .ok (head.followedBy tail)) >>= _)
      cases walk visit ranges xs head.unknown with
      | error e => rfl
      | ok front =>
        change ((walk visit ranges ys front.unknown >>= fun back => .ok (front.followedBy back)) >>= _) =
          (walk visit ranges ys front.unknown >>= _)
        cases walk visit ranges ys front.unknown with
        | error e => rfl
        | ok back =>
          change Except.ok _ = Except.ok _
          simp [followedBy]

/-- A property of runs holds of what a walk builds if it holds of the parts. -/
theorem walk_induction {motive : List Lexeme → List String → Substitution → Prop}
    (nil : ∀ unknown, motive [] unknown ⟨[], unknown⟩)
    (cons : ∀ x rest unknown head tail, replaced visit ranges x unknown = .ok head →
      walk visit ranges rest head.unknown = .ok tail → motive rest head.unknown tail →
      motive (x :: rest) unknown (head.followedBy tail))
    {items : List Lexeme} {unknown : List String} {substitution : Substitution}
    (walked : walk visit ranges items unknown = .ok substitution) :
    motive items unknown substitution := by
  induction items generalizing unknown substitution with
  | nil =>
    cases walked
    exact nil unknown
  | cons x rest ih =>
    rw [walk_cons] at walked
    obtain ⟨head, replaced, behind⟩ := bind_eq_ok.mp walked
    obtain ⟨tail, later, eq⟩ := bind_eq_ok.mp behind
    cases eq
    exact cons x rest unknown head tail replaced later (ih later)

end Substitution

/-! ### Settled texts -/

namespace Registry

/-- A reference that is never replaced: a keyword, or the key of a primitive symbol. -/
def isFinal (registry : Registry) (reference : Reference) : Bool :=
  reference.isKeyword || (registry.find? reference.key).any Definition.isPrimitive

structure Composed (registry : Registry) (reference : Reference) (definition : Definition) :
    Prop where
  named : reference.isKeyword = false
  found : registry.find? reference.key = some definition
  replaced : definition.isPrimitive = false

def isUndefined (registry : Registry) (reference : Reference) : Bool :=
  !reference.isKeyword && !registry.contains reference.key

theorem Composed.not_final {registry : Registry} {reference : Reference} {definition : Definition}
    (composed : registry.Composed reference definition) : registry.isFinal reference = false := by
  simp [isFinal, composed.named, composed.found, composed.replaced]

theorem Composed.unique {registry : Registry} {reference : Reference}
    {definition definition' : Definition} (composed : registry.Composed reference definition)
    (composed' : registry.Composed reference definition') : definition' = definition := by
  have same := composed.found
  rw [composed'.found] at same
  cases same
  rfl

/-- A text that is written as it is read and never replaced. -/
def Settled (registry : Registry) (text : String) : Prop :=
  ∃ reference, Reference.parse text = .ok reference ∧ reference.text = text ∧
    registry.isFinal reference = true

theorem Settled.written {registry : Registry} {text : String} (settled : registry.Settled text) :
    Written text := by
  obtain ⟨reference, parsed, same, -⟩ := settled
  exact ⟨reference, parsed, same⟩

/-- Runs of brackets, delimiters, multipliers and settled tokens. -/
def SettledItems (registry : Registry) (items : List Lexeme) : Prop :=
  ∀ text, .token text ∈ items → registry.Settled text

theorem replace_of_isFinal {registry : Registry} {reference : Reference}
    (final : registry.isFinal reference = true) (chain unknown : List String) :
    registry.replace chain reference unknown = .ok (Substitution.keep reference unknown) := by
  unfold replace
  by_cases keyword : reference.isKeyword = true
  · rw [if_pos keyword]
  · rw [if_neg keyword]
    simp only [isFinal, keyword, Bool.false_or] at final
    dsimp only
    split
    · next none =>
      rw [none] at final
      cases final
    · next definition found =>
      rw [found, Option.any_some] at final
      rw [if_pos final]

/-- The substitution of a composed definition, with the given ranges handed down and brackets
around more than one lexeme. -/
def opened (registry : Registry) (chain : List String) (ranges : List Range) (grammar : String)
    (unknown : List String) : Except Error Substitution := do
  let items ← Lexeme.ofGrammar grammar
  let inner ← Substitution.walk (registry.replace chain) ranges items unknown
  return ⟨Substitution.enclose inner.items, inner.unknown⟩

theorem replace_of_composed {registry : Registry} {chain : List String} {reference : Reference}
    {definition : Definition} (composed : registry.Composed reference definition)
    (closed : reference.key ∉ chain) (unknown : List String) :
    registry.replace chain reference unknown =
      registry.opened (chain ++ [reference.key]) reference.ranges definition.grammar unknown := by
  have notKeyword : ¬ reference.isKeyword = true := by simp [composed.named]
  have notPrimitive : ¬ definition.isPrimitive = true := by simp [composed.replaced]
  rw [replace, if_neg notKeyword]
  dsimp only
  split
  · next none =>
    rw [composed.found] at none
    cases none
  · next definition' found' =>
    rw [composed.found] at found'
    cases found'
    rw [if_neg notPrimitive, dif_neg closed]
    rfl

/-- A reference is kept, kept and noted, or replaced by what its definition stands for. -/
theorem replace_eq_ok {registry : Registry} {chain : List String} {reference : Reference}
    {unknown : List String} {result : Substitution}
    (replaced : registry.replace chain reference unknown = .ok result) :
    (registry.isFinal reference = true ∧ result = Substitution.keep reference unknown) ∨
      (registry.isUndefined reference = true ∧
        result = Substitution.keep reference (Substitution.note unknown reference.key)) ∨
      ∃ definition, registry.Composed reference definition ∧ reference.key ∉ chain ∧
        registry.opened (chain ++ [reference.key]) reference.ranges definition.grammar unknown =
          .ok result := by
  unfold replace at replaced
  by_cases keyword : reference.isKeyword = true
  · rw [if_pos keyword] at replaced
    cases replaced
    exact Or.inl ⟨by simp [isFinal, keyword], rfl⟩
  · rw [if_neg keyword] at replaced
    dsimp only at replaced
    split at replaced
    · next none =>
      cases replaced
      exact Or.inr (Or.inl ⟨by simp [isUndefined, keyword, contains, none], rfl⟩)
    · next definition found =>
      by_cases primitive : definition.isPrimitive = true
      · rw [if_pos primitive] at replaced
        cases replaced
        exact Or.inl ⟨by simp [isFinal, found, primitive], rfl⟩
      · rw [if_neg primitive] at replaced
        split at replaced
        · cases replaced
        · next closed =>
          have composed : registry.Composed reference definition :=
            ⟨by simpa using keyword, found, by simpa using primitive⟩
          exact Or.inr (Or.inr ⟨definition, composed, closed, replaced⟩)

/-- Settled items are their own substitution. -/
theorem walk_of_settled {registry : Registry} {items : List Lexeme}
    (settled : registry.SettledItems items) (chain unknown : List String) :
    Substitution.walk (registry.replace chain) [] items unknown = .ok ⟨items, unknown⟩ := by
  induction items with
  | nil => rfl
  | cons x rest ih =>
    have later := ih fun text member => settled text (List.mem_cons_of_mem x member)
    have head : Substitution.replaced (registry.replace chain) [] x unknown = .ok ⟨[x], unknown⟩ := by
      cases x with
      | token text =>
        obtain ⟨reference, parsed, same, final⟩ := settled text List.mem_cons_self
        have kept := replace_of_isFinal final chain unknown
        simp only [Substitution.replaced, parsed]
        change registry.replace chain (reference.narrowedBy []) unknown = _
        rw [Reference.narrowedBy_nil, kept, Substitution.keep, same]
      | _ => rfl
    rw [Substitution.walk_cons, head]
    change (Substitution.walk (registry.replace chain) [] rest unknown >>= _) = _
    rw [later]
    rfl

/-! ### What substitution makes of a run -/

/-- The substitution of a run, lexeme by lexeme: what is no token stays, references that are never
replaced are kept, those without a definition are kept and noted, and composed ones are opened. -/
inductive Substitutes (registry : Registry) :
    List Range → List Lexeme → List String → Substitution → Prop
  | nothing (ranges : List Range) (unknown : List String) :
      Substitutes registry ranges [] unknown ⟨[], unknown⟩
  | plain {ranges : List Range} {x : Lexeme} {rest : List Lexeme} {unknown : List String}
      {tail : Substitution} (plain : ∀ text, x ≠ .token text)
      (later : Substitutes registry ranges rest unknown tail) :
      Substitutes registry ranges (x :: rest) unknown (.followedBy ⟨[x], unknown⟩ tail)
  | kept {ranges : List Range} {raw : String} {reference : Reference} {rest : List Lexeme}
      {unknown : List String} {tail : Substitution} (parsed : Reference.parse raw = .ok reference)
      (final : registry.isFinal (reference.narrowedBy ranges) = true)
      (later : Substitutes registry ranges rest unknown tail) :
      Substitutes registry ranges (.token raw :: rest) unknown
        (.followedBy (.keep (reference.narrowedBy ranges) unknown) tail)
  | noted {ranges : List Range} {raw : String} {reference : Reference} {rest : List Lexeme}
      {unknown : List String} {tail : Substitution} (parsed : Reference.parse raw = .ok reference)
      (undefined : registry.isUndefined (reference.narrowedBy ranges) = true)
      (later : Substitutes registry ranges rest
        (Substitution.note unknown (reference.narrowedBy ranges).key) tail) :
      Substitutes registry ranges (.token raw :: rest) unknown
        (.followedBy (.keep (reference.narrowedBy ranges)
          (Substitution.note unknown (reference.narrowedBy ranges).key)) tail)
  | opened {ranges : List Range} {raw : String} {reference : Reference} {definition : Definition}
      {inside rest : List Lexeme} {unknown : List String} {inner tail : Substitution}
      (parsed : Reference.parse raw = .ok reference)
      (composed : registry.Composed (reference.narrowedBy ranges) definition)
      (lexed : Lexeme.ofGrammar definition.grammar = .ok inside)
      (within : Substitutes registry (reference.narrowedBy ranges).ranges inside unknown inner)
      (later : Substitutes registry ranges rest inner.unknown tail) :
      Substitutes registry ranges (.token raw :: rest) unknown
        (.followedBy ⟨Substitution.enclose inner.items, inner.unknown⟩ tail)

theorem substitutes_of_walk {registry : Registry} {chain : List String} {ranges : List Range}
    {items : List Lexeme} {unknown : List String} {result : Substitution}
    (walked : Substitution.walk (registry.replace chain) ranges items unknown = .ok result) :
    registry.Substitutes ranges items unknown result := by
  induction size : registry.unopened chain using Nat.strong_induction_on
    generalizing chain ranges items unknown result with
  | _ n ih =>
    subst size
    refine Substitution.walk_induction (motive := registry.Substitutes ranges)
      (.nothing ranges) ?_ walked
    intro x rest unknown head tail visited _ later
    cases x with
    | token raw =>
      obtain ⟨reference, parsed, replaced⟩ := bind_eq_ok.mp visited
      rcases replace_eq_ok replaced with
        ⟨final, rfl⟩ | ⟨undefined, rfl⟩ | ⟨definition, composed, closed, opened⟩
      · exact .kept parsed final later
      · exact .noted parsed undefined later
      · obtain ⟨inside, lexed, walks⟩ := bind_eq_ok.mp opened
        obtain ⟨inner, walkedInner, eq⟩ := bind_eq_ok.mp walks
        cases eq
        exact .opened parsed composed lexed
          (ih _ (unopened_lt composed.found closed) walkedInner rfl) later
    | _ =>
      cases visited
      exact .plain (by simp) later

theorem settledItems_append {registry : Registry} {xs ys : List Lexeme}
    (front : registry.SettledItems xs) (back : registry.SettledItems ys) :
    registry.SettledItems (xs ++ ys) := by
  intro text member
  exact (List.mem_append.mp member).elim (front text) (back text)

theorem settledItems_enclose {registry : Registry} {items : List Lexeme}
    (settled : registry.SettledItems items) :
    registry.SettledItems (Substitution.enclose items) := by
  intro text member
  unfold Substitution.enclose at member
  split at member
  · exact settled text (by simpa using member)
  · exact settled text member

theorem note_ne_nil (unknown : List String) (key : String) :
    Substitution.note unknown key ≠ [] := by
  intro none
  unfold Substitution.note at none
  split at none
  · next member =>
    rw [none] at member
    cases member
  · simp at none

/-- If every key has a definition behind a run, then also before it, and the result is settled. -/
theorem Substitutes.settles {registry : Registry} {ranges : List Range} {items : List Lexeme}
    {unknown : List String} {result : Substitution}
    (substitutes : registry.Substitutes ranges items unknown result)
    (known : result.unknown = []) : unknown = [] ∧ registry.SettledItems result.items := by
  induction substitutes with
  | nothing ranges unknown => exact ⟨known, fun text member => by cases member⟩
  | plain plain _ ih =>
    obtain ⟨before, behind⟩ := ih known
    refine ⟨before, settledItems_append (fun text member => ?_) behind⟩
    exact absurd (List.mem_singleton.mp member).symm (plain text)
  | @kept ranges raw reference rest unknown tail parsed final _ ih =>
    obtain ⟨before, behind⟩ := ih known
    refine ⟨before, settledItems_append (fun text member => ?_) behind⟩
    simp only [Substitution.keep, List.mem_singleton, Lexeme.token.injEq] at member
    subst member
    exact ⟨_, Reference.parse_text_narrowedBy parsed ranges, rfl, final⟩
  | noted _ _ _ ih => exact absurd (ih known).1 (note_ne_nil _ _)
  | opened _ _ _ _ _ within later =>
    obtain ⟨between, behind⟩ := later known
    obtain ⟨before, inside⟩ := within between
    exact ⟨before, settledItems_append (settledItems_enclose inside) behind⟩

/-- When every key has a definition, the items of a substitution are settled. -/
theorem settledItems_of_substitute {registry : Registry} {grammar : String}
    {substitution : Substitution} (substituted : registry.substitute grammar = .ok substitution)
    (known : substitution.unknown = []) : registry.SettledItems substitution.items := by
  obtain ⟨items, -, walked⟩ := bind_eq_ok.mp substituted
  exact ((substitutes_of_walk walked).settles known).2

/-- A grammar of settled lexemes is its own substitution. -/
theorem substitute_of_settled {registry : Registry} {grammar : String} {items : List Lexeme}
    (lexed : Lexeme.ofGrammar grammar = .ok items) (settled : registry.SettledItems items) :
    registry.substitute grammar = .ok ⟨items, []⟩ := by
  unfold substitute
  rw [lexed]
  exact walk_of_settled settled [] []

end Registry

end ValueGrammar
