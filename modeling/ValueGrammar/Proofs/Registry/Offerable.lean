import ValueGrammar.Proofs.Expansion.Composition
import ValueGrammar.Proofs.Slot.Defaults

/-!
Grammars whose tokens can all be offered: their keywords are spelled as in values, and zero lies in all
their ranges. Substitution keeps this, as the ranges that are handed down have zero in them too, so the
places of their expansions are offerable.
-/
namespace ValueGrammar

namespace Reference

/-- A keyword that is spelled as in values, a typed reference with zero in all its ranges, or any
function reference. -/
def isOfferable : Reference → Bool
  | .keyword name => Fragment.isKeyword name
  | .typed _ ranges => ranges.all (·.contains Number.zero)
  | .function _ _ => true

theorem isOfferable_narrowedBy {reference : Reference} {ranges : List Range}
    (offerable : reference.isOfferable = true)
    (zero : ∀ range ∈ ranges, range.contains Number.zero = true) :
    (reference.narrowedBy ranges).isOfferable = true := by
  cases reference with
  | keyword name => exact offerable
  | function name arguments => rfl
  | typed name own =>
    simp only [isOfferable, narrowedBy, List.all_append, Bool.and_eq_true] at offerable ⊢
    exact ⟨offerable, List.all_eq_true.mpr zero⟩

theorem contains_zero_of_mem_ranges {reference : Reference}
    (offerable : reference.isOfferable = true) :
    ∀ range ∈ reference.ranges, range.contains Number.zero = true := by
  cases reference with
  | keyword name => simp [ranges]
  | function name arguments => simp [ranges]
  | typed name own => exact List.all_eq_true.mp offerable

theorem contains_zero_of_range? {reference : Reference}
    (offerable : reference.isOfferable = true) :
    ∀ range ∈ reference.range?, range.contains Number.zero = true := by
  intro range given
  have each := contains_zero_of_mem_ranges offerable
  unfold range? at given
  split at given
  · cases given
  · cases given
    exact Range.contains_foldl.mpr ⟨rfl, each⟩

end Reference

def Lexeme.isOfferable : Lexeme → Bool
  | .token raw => (Reference.parse raw).toOption.all Reference.isOfferable
  | _ => true

/-- A grammar all of whose lexemes are offerable, if it can be read. -/
def offersAll (grammar : String) : Bool :=
  (Lexeme.ofGrammar grammar).toOption.all fun items => items.all Lexeme.isOfferable

namespace Registry

def OfferableItems (items : List Lexeme) : Prop :=
  ∀ x ∈ items, x.isOfferable = true

/-- The composed definitions of a registry have offerable lexemes. -/
def OffersAll (registry : Registry) : Prop :=
  ∀ definition ∈ registry.definitions, definition.isPrimitive = false →
    offersAll definition.grammar = true

theorem offerableItems_of_offersAll {grammar : String} {items : List Lexeme}
    (offers : offersAll grammar = true) (lexed : Lexeme.ofGrammar grammar = .ok items) :
    OfferableItems items := by
  unfold offersAll at offers
  rw [lexed] at offers
  exact List.all_eq_true.mp offers

theorem isOfferable_token {raw : String} {reference : Reference}
    (offerable : (Lexeme.token raw).isOfferable = true)
    (parsed : Reference.parse raw = .ok reference) : reference.isOfferable = true := by
  change (Reference.parse raw).toOption.all Reference.isOfferable = true at offerable
  rw [parsed] at offerable
  exact offerable

theorem offerableItems_keep {reference : Reference} (proper : reference.Proper)
    (offerable : reference.isOfferable = true) (unknown : List String) :
    OfferableItems (Substitution.keep reference unknown).items := by
  intro x member
  rw [List.mem_singleton.mp member, Lexeme.isOfferable, Reference.parse_text proper]
  exact offerable

theorem offerableItems_enclose {items : List Lexeme} (offerable : OfferableItems items) :
    OfferableItems (Substitution.enclose items) := by
  intro x member
  unfold Substitution.enclose at member
  split at member
  · rw [List.cons_append, List.mem_cons, List.mem_append, List.mem_singleton] at member
    rcases member with rfl | inside | rfl
    · rfl
    · exact offerable x inside
    · rfl
  · exact offerable x member

theorem Substitutes.offerable {registry : Registry} (offers : registry.OffersAll)
    {ranges : List Range} (zero : ∀ range ∈ ranges, range.contains Number.zero = true)
    {items : List Lexeme} (given : OfferableItems items) {unknown : List String}
    {result : Substitution} (substitutes : registry.Substitutes ranges items unknown result) :
    OfferableItems result.items := by
  have token {raw : String} {reference : Reference} {rest : List Lexeme} {ranges : List Range}
      (zero : ∀ range ∈ ranges, range.contains Number.zero = true)
      (given : OfferableItems (.token raw :: rest)) (parsed : Reference.parse raw = .ok reference) :
      (reference.narrowedBy ranges).isOfferable = true :=
    Reference.isOfferable_narrowedBy (isOfferable_token (given _ List.mem_cons_self) parsed) zero
  have behind {x : Lexeme} {rest : List Lexeme} (given : OfferableItems (x :: rest)) :
      OfferableItems rest := fun y member => given y (List.mem_cons_of_mem x member)
  induction substitutes with
  | nothing ranges unknown => exact given
  | plain plain _ ih =>
    refine List.forall_mem_append.mpr ⟨fun x member => ?_, ih zero (behind given)⟩
    rw [List.mem_singleton.mp member]
    exact given _ List.mem_cons_self
  | kept parsed _ _ ih =>
    exact List.forall_mem_append.mpr
      ⟨offerableItems_keep ((Reference.proper_of_parse parsed).narrowedBy _)
        (token zero given parsed) _, ih zero (behind given)⟩
  | noted parsed _ _ ih =>
    exact List.forall_mem_append.mpr
      ⟨offerableItems_keep ((Reference.proper_of_parse parsed).narrowedBy _)
        (token zero given parsed) _, ih zero (behind given)⟩
  | opened parsed composed lexed _ _ within later =>
    have handed := Reference.contains_zero_of_mem_ranges (token zero given parsed)
    have inside := offerableItems_of_offersAll
      (offers _ (find?_eq_some composed.found).1 composed.replaced) lexed
    exact List.forall_mem_append.mpr
      ⟨offerableItems_enclose (within handed inside), later zero (behind given)⟩

/-- Substitution in an offerable grammar leaves offerable lexemes. -/
theorem offerableItems_of_substitute {registry : Registry} (offers : registry.OffersAll)
    {grammar : String} {items : List Lexeme} (lexed : Lexeme.ofGrammar grammar = .ok items)
    (offerable : OfferableItems items) {substitution : Substitution}
    (substituted : registry.substitute grammar = .ok substitution) :
    OfferableItems substitution.items := by
  obtain ⟨items', lexed', walked⟩ := bind_eq_ok.mp substituted
  rw [lexed] at lexed'
  cases lexed'
  exact (substitutes_of_walk walked).offerable offers (by simp) offerable

end Registry

theorem Place.isOfferable_of_reference {place : Place} {reference : Reference}
    (isOf : place.IsOf reference) (final : Registry.builtin.isFinal reference = true)
    (offerable : reference.isOfferable = true) : place.IsOfferable := by
  constructor
  · intro undefined
    rcases Catalog.cases_of_isFinal isOf.parsed final with ⟨name, rfl, -⟩ | primitive
    · rw [isOf.key]
      exact offerable
    · obtain ⟨definition, found⟩ := Catalog.exists_definition primitive
      rw [isOf.key, Registry.contains, found] at undefined
      cases undefined
  · intro range given _
    rw [isOf.range] at given
    exact Reference.contains_zero_of_range? offerable range given

theorem Catalog.offersAll_definitions :
    definitions.all (fun definition =>
      primitiveKeys.contains definition.key || offersAll definition.grammar) = true := by
  decide +kernel

theorem Registry.offersAll_builtin : Registry.builtin.OffersAll := by
  intro definition listed composed
  have checked := List.all_eq_true.mp Catalog.offersAll_definitions definition listed
  rcases Bool.or_eq_true_iff.mp checked with primitive | offers
  · rw [(Catalog.isPrimitive_iff listed).mpr (List.contains_iff_mem.mp primitive)] at composed
    cases composed
  · exact offers

/-- The places of the expansion of an offerable grammar are offerable. -/
theorem isOfferable_of_offersAll {grammar : String} (offers : offersAll grammar = true)
    {expansion : Expansion} {items : List Lexeme} {tree : Tree}
    (derivation : Derivation Context.standard grammar expansion items tree) {variant : Variant}
    (member : variant ∈ expansion.variants) {place : Place} (inside : place ∈ variant.places) :
    place.IsOfferable := by
  obtain ⟨reference, isOf, final⟩ := derivation.exists_final member inside
  obtain ⟨token, -⟩ := derivation.exists_token member inside
  obtain ⟨lexed, read, -⟩ := bind_eq_ok.mp derivation.substituted
  have whole := Lexeme.ofGrammar_of_trim read
  have offerable := Registry.offerableItems_of_substitute Registry.offersAll_builtin read
    (Registry.offerableItems_of_offersAll offers whole) derivation.substituted
  exact Place.isOfferable_of_reference isOf final
    (Registry.isOfferable_token (offerable _ token) isOf.parsed)

end ValueGrammar
