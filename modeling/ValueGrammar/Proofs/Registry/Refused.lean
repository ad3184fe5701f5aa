import ValueGrammar.Proofs.Registry.Unfolding

/-!
Why a substitution is refused. Either a text is malformed, that of the grammar, of a definition or
of a token, or a definition leads back to itself.
-/
namespace ValueGrammar

def Error.IsOfSubstitution (e : Error) : Prop :=
  (∃ cause, e = .malformed cause) ∨ ∃ key chain, e = .cyclicDefinition key chain

theorem Reference.malformed_of_parse {raw : String} {e : Error} (failed : parse raw = .error e) :
    ∃ cause, e = .malformed cause := by
  unfold parse at failed
  split at failed
  · cases failed
  · cases failed
    exact ⟨_, rfl⟩

theorem Lexeme.malformed_of_ofGrammar {grammar : String} {e : Error}
    (failed : ofGrammar grammar = .error e) : ∃ cause, e = .malformed cause := by
  unfold ofGrammar at failed
  split at failed
  · cases failed
  · cases failed
    exact ⟨_, rfl⟩

namespace Substitution

variable {visit : Reference → List String → Except Error Substitution} {ranges : List Range}

/-- A walk fails at a token that is no reference, or where a visit does. -/
theorem walk_eq_error {items : List Lexeme} {unknown : List String} {e : Error}
    (failed : walk visit ranges items unknown = .error e) :
    ∃ text, .token text ∈ items ∧
      (Reference.parse text = .error e ∨
        ∃ reference unknown, Reference.parse text = .ok reference ∧
          visit (reference.narrowedBy ranges) unknown = .error e) := by
  induction items generalizing unknown with
  | nil => cases failed
  | cons x rest ih =>
    rw [walk_cons] at failed
    rcases bind_eq_error.mp failed with here | ⟨head, -, behind⟩
    · cases x with
      | token text =>
        refine ⟨text, List.mem_cons_self, ?_⟩
        rcases bind_eq_error.mp here with unread | ⟨reference, parsed, refused⟩
        · exact Or.inl unread
        · exact Or.inr ⟨reference, unknown, parsed, refused⟩
      | _ => cases here
    · rcases bind_eq_error.mp behind with later | ⟨tail, -, made⟩
      · obtain ⟨text, member, cause⟩ := ih later
        exact ⟨text, List.mem_cons_of_mem x member, cause⟩
      · cases made

end Substitution

namespace Registry

variable {registry : Registry}

/-- What is wrong with a run when the definitions on a chain are open: a token is no reference, or
it names an open definition, or its definition cannot be read, or something is wrong inside of it. -/
inductive Refuses (registry : Registry) : List String → List Lexeme → Error → Prop
  | unread {chain : List String} {items : List Lexeme} {text : String} {e : Error}
      (member : .token text ∈ items) (failed : Reference.parse text = .error e) :
      Refuses registry chain items e
  | cyclic {chain : List String} {items : List Lexeme} {text : String} {reference : Reference}
      {definition : Definition} (member : .token text ∈ items)
      (parsed : Reference.parse text = .ok reference)
      (composed : registry.Composed reference definition) (onChain : reference.key ∈ chain) :
      Refuses registry chain items (.cyclicDefinition reference.key (chain ++ [reference.key]))
  | unlexed {chain : List String} {items : List Lexeme} {text : String} {reference : Reference}
      {definition : Definition} {e : Error} (member : .token text ∈ items)
      (parsed : Reference.parse text = .ok reference)
      (composed : registry.Composed reference definition)
      (failed : Lexeme.ofGrammar definition.grammar = .error e) : Refuses registry chain items e
  | behind {chain : List String} {items inner : List Lexeme} {text : String}
      {reference : Reference} {definition : Definition} {e : Error}
      (member : .token text ∈ items) (parsed : Reference.parse text = .ok reference)
      (composed : registry.Composed reference definition) (closed : reference.key ∉ chain)
      (lexed : Lexeme.ofGrammar definition.grammar = .ok inner)
      (inside : Refuses registry (chain ++ [reference.key]) inner e) :
      Refuses registry chain items e

/-- A walk that fails has a reason. -/
theorem refuses_of_walk (chain : List String) {ranges : List Range} {items : List Lexeme}
    {unknown : List String} {e : Error}
    (failed : Substitution.walk (registry.replace chain) ranges items unknown = .error e) :
    registry.Refuses chain items e := by
  -- Every definition that is opened leaves fewer to be opened.
  induction size : registry.unopened chain using Nat.strong_induction_on
    generalizing chain ranges items unknown e with
  | _ n ih =>
    subst size
    obtain ⟨text, member, cause⟩ := Substitution.walk_eq_error failed
    rcases cause with unread | ⟨reference, unknown, parsed, refused⟩
    · exact .unread member unread
    · by_cases stands : ∃ definition, registry.Composed reference definition
      · obtain ⟨definition, composed⟩ := stands
        have narrowed : registry.Composed (reference.narrowedBy ranges) definition :=
          composed_narrowedBy.mpr composed
        have key := Reference.key_narrowedBy reference ranges
        by_cases onChain : reference.key ∈ chain
        · rw [narrowed.replace_of_mem (key.symm ▸ onChain), key] at refused
          cases refused
          exact .cyclic member parsed composed onChain
        · rw [replace_of_composed narrowed (key.symm ▸ onChain), key] at refused
          rcases bind_eq_error.mp refused with unlexed | ⟨inner, lexed, later⟩
          · exact .unlexed member parsed composed unlexed
          · rcases bind_eq_error.mp later with unwalked | ⟨result, -, made⟩
            · have fewer := unopened_lt composed.found onChain
              exact .behind member parsed composed onChain lexed (ih _ fewer _ unwalked rfl)
            · cases made
      · have stays := not_exists.mp stands
        rw [replace_of_stays fun definition composed =>
          stays definition (composed_narrowedBy.mp composed)] at refused
        cases refused

theorem Refuses.isOfSubstitution {chain : List String} {items : List Lexeme} {e : Error}
    (refuses : registry.Refuses chain items e) : e.IsOfSubstitution := by
  induction refuses with
  | unread _ failed => exact Or.inl (Reference.malformed_of_parse failed)
  | cyclic => exact Or.inr ⟨_, _, rfl⟩
  | unlexed _ _ _ failed => exact Or.inl (Lexeme.malformed_of_ofGrammar failed)
  | behind _ _ _ _ _ _ ih => exact ih

/-- A substitution is refused for a malformed text or for a definition that leads back to itself. -/
theorem isOfSubstitution_of_substitute {grammar : String} {e : Error}
    (failed : registry.substitute grammar = .error e) : e.IsOfSubstitution := by
  rcases bind_eq_error.mp failed with unread | ⟨items, -, unwalked⟩
  · exact Or.inl (Lexeme.malformed_of_ofGrammar unread)
  · exact (refuses_of_walk [] unwalked).isOfSubstitution

end Registry

end ValueGrammar
