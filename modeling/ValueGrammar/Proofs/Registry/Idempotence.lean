import ValueGrammar.Proofs.Lexeme.Rendering
import ValueGrammar.Proofs.Registry.Settled

/-!
Expanding an expanded text. What substitution leaves is written and read again as the same lexemes,
but for signs that take the braces behind them; these are no tokens, and the text stays the same.
-/
namespace ValueGrammar.Registry

variable {registry : Registry}

/-! ### Lexemes of a substitution -/

theorem isReadable_keep {raw : String} {reference : Reference}
    (parsed : Reference.parse raw = .ok reference) (ranges : List Range) (unknown : List String) :
    ∀ x ∈ (Substitution.keep (reference.narrowedBy ranges) unknown).items, x.IsReadable := by
  intro x member
  rw [List.mem_singleton.mp member]
  exact Lexeme.isToken_text ((Reference.proper_of_parse parsed).narrowedBy ranges)

theorem isReadable_enclose {items : List Lexeme} (readable : ∀ x ∈ items, x.IsReadable) :
    ∀ x ∈ Substitution.enclose items, x.IsReadable := by
  unfold Substitution.enclose
  split
  · simp only [List.mem_append, List.mem_cons, List.not_mem_nil, or_false]
    rintro x ((rfl | inside) | rfl)
    · trivial
    · exact readable x inside
    · trivial
  · exact readable

/-- Substitution leaves lexemes that can stand in a grammar. -/
theorem Substitutes.readable {ranges : List Range} {items : List Lexeme}
    (given : ∀ x ∈ items, x.IsReadable) {unknown : List String} {result : Substitution}
    (substitutes : registry.Substitutes ranges items unknown result) :
    ∀ x ∈ result.items, x.IsReadable := by
  induction substitutes with
  | nothing ranges unknown => exact given
  | plain _ _ ih =>
    obtain ⟨here, behind⟩ := List.forall_mem_cons.mp given
    exact List.forall_mem_append.mpr ⟨by simpa using here, ih behind⟩
  | kept parsed _ _ ih =>
    exact List.forall_mem_append.mpr
      ⟨isReadable_keep parsed _ _, ih (List.forall_mem_cons.mp given).2⟩
  | noted parsed _ _ ih =>
    exact List.forall_mem_append.mpr
      ⟨isReadable_keep parsed _ _, ih (List.forall_mem_cons.mp given).2⟩
  | opened _ _ lexed _ _ within later =>
    have inside := Lexeme.isReadable_of_readAll (Lexeme.ofGrammar_eq_ok.mp lexed)
    exact List.forall_mem_append.mpr
      ⟨isReadable_enclose (within inside), later (List.forall_mem_cons.mp given).2⟩

theorem isReadable_of_substitute {grammar : String} {substitution : Substitution}
    (substituted : registry.substitute grammar = .ok substitution) :
    ∀ x ∈ substitution.items, x.IsReadable := by
  obtain ⟨items, lexed, walked⟩ := bind_eq_ok.mp substituted
  exact (substitutes_of_walk walked).readable
    (Lexeme.isReadable_of_readAll (Lexeme.ofGrammar_eq_ok.mp lexed))

/-! ### Expanding twice -/

/-- Where every key has a definition, the text of a substitution has the same lexemes when it is read
and substituted again, but for signs that take braces. -/
theorem substitute_text {grammar : String} {substitution : Substitution}
    (substituted : registry.substitute grammar = .ok substitution)
    (known : substitution.unknown = []) :
    registry.substitute substitution.text = .ok ⟨Lexeme.merged substitution.items, []⟩ := by
  have read := Lexeme.readAll_render (isReadable_of_substitute substituted)
  have settled := settledItems_of_substitute substituted known
  exact substitute_of_settled (Lexeme.ofGrammar_eq_ok.mpr read) fun text member =>
    settled text (Lexeme.token_mem_of_mem_merged member)

/-- An expanded text stays as it is when it is expanded again. -/
theorem expandText_idempotent {grammar text : String}
    (expanded : registry.expandText grammar = .ok text) : registry.expandText text = .ok text := by
  obtain ⟨substitution, substituted, eq⟩ := bind_eq_ok.mp expanded
  split at eq
  · next known =>
    cases eq
    have again := substitute_text substituted (List.isEmpty_iff.mp known)
    rw [expandText, again]
    exact congrArg Except.ok (Lexeme.render_merged (isReadable_of_substitute substituted))
  · cases eq
    exact expanded

/-- The token `<twice>` stands for a multiplier. -/
def doubling : Registry :=
  ⟨[⟨"<twice>", "\x7b2\x7d", none⟩], by decide⟩

/-- The sign `#` takes the braces that a token stood for, and the text stays the same. -/
theorem expandText_idempotent_doubling :
    doubling.expandText "a# <twice>" = .ok "a#\x7b2\x7d" ∧
      doubling.expandText "a#\x7b2\x7d" = .ok "a#\x7b2\x7d" := by
  have computed : (doubling.expandText "a# <twice>").toOption.any (· == "a#\x7b2\x7d") = true := by
    decide +kernel
  obtain ⟨text, expanded, same⟩ := exists_ok_of_any computed
  rw [eq_of_beq same] at expanded
  exact ⟨expanded, expandText_idempotent expanded⟩

end ValueGrammar.Registry
