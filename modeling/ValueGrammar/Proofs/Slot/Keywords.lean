import ValueGrammar.Proofs.Category.Classification
import ValueGrammar.Proofs.Slot.Completion

/-!
Variants of keywords as values. A variant that consists of keywords is split into its tokens where it is
read as a value, and it is a complete value of its grammar if some variant with its separators takes these
tokens. It takes them itself exactly if all of them are spelled as keywords are in values. Grammars have
further identifiers for keywords, and a variant with one of them need not be a value.
-/
namespace ValueGrammar

open Fragments

def Variant.fragments (variant : Variant) : Fragments :=
  ⟨variant.places.map (·.token), variant.separators⟩

def Variant.IsKeywords (variant : Variant) : Prop :=
  ∀ place ∈ variant.places, ∃ reference,
    Reference.parse place.token = .ok reference ∧ reference.isKeyword = true

namespace Context

/-- A variant that is a complete value of its grammar, as it is written. -/
def IsLegal (context : Context) (grammar : String) (variant : Variant) : Prop :=
  ∃ form, context.form grammar variant.text = .ok form ∧ form.complete = true ∧
    form.value = variant.text

end Context

/-! ### Places of keywords -/

structure Place.IsKeyword (place : Place) : Prop where
  parsed : Reference.parse place.key = .ok (.keyword place.key)
  token : place.token = place.key
  free : place.range? = none

namespace Place

variable {place : Place}

/-- A keyword is taken at its own place if it is spelled as keywords are in values. -/
theorem IsKeyword.takes_iff (keyword : place.IsKeyword) :
    Context.standard.Takes place place.token ↔ Fragment.isKeyword place.token = true := by
  have whole := whole_keyword keyword.parsed
  rw [keyword.token]
  constructor
  · intro takes
    have listed := Context.lists_iff.mpr takes.1
    have spelled := (Context.lists_keyword.mp ⟨keyword.parsed, listed⟩).2
    rwa [whole.trim, ← Fragment.isKeyword_iff] at spelled
  · exact fun spelled => takes_keyword keyword.parsed spelled keyword.free

end Place

namespace Context

variable {grammar : String} {expansion : Expansion} {items : List Lexeme} {tree : Tree}
  {variant : Variant}

/-- The tokens of an expansion are written as their references are. -/
theorem isKeyword_of_mem (derivation : Derivation standard grammar expansion items tree)
    (member : variant ∈ expansion.variants) (keywords : variant.IsKeywords) :
    ∀ place ∈ variant.places, place.IsKeyword := by
  intro place inside
  obtain ⟨item, reference, isOf⟩ := derivation.exists_token member inside
  obtain ⟨written, parsedWritten, same, -⟩ := derivation.settled place.token item
  obtain ⟨keyword, parsedKeyword, isKeyword⟩ := keywords place inside
  cases parsedWritten.symm.trans isOf.parsed
  cases parsedKeyword.symm.trans isOf.parsed
  cases reference with
  | keyword name =>
    have key : place.key = name := isOf.key
    have token : place.token = name := same.symm
    refine ⟨?_, token.trans key.symm, isOf.range⟩
    rw [key, ← isOf.parsed, token]
  | typed name ranges => cases isKeyword
  | function name arguments => cases isKeyword

/-- A variant of keywords is split into its tokens. -/
theorem ofValue_text (derivation : Derivation standard grammar expansion items tree)
    (member : variant ∈ expansion.variants) (keywords : variant.IsKeywords) :
    ofValue variant.text = variant.fragments := by
  refine split_join (isRow_of_whole fun text inside => ?_) ?_ fun s _ => Separator.mem_all s
  · obtain ⟨place, placed, rfl⟩ := List.mem_map.mp inside
    have keyword := isKeyword_of_mem derivation member keywords place placed
    rw [keyword.token]
    exact Place.whole_keyword keyword.parsed
  · rw [derivation.length_separators member, List.length_map]
    rfl

/-- A complete form is made of the fragments of its value. -/
theorem value_of_complete (derivation : Derivation standard grammar expansion items tree)
    {value : String} {form : Form} (formed : standard.formIn expansion value = .ok form)
    (complete : form.complete = true) : form.value = (ofValue value).value := by
  obtain ⟨literals, forms⟩ := exists_forms formed
  obtain ⟨rfl, filled⟩ := forms.isFilledBy derivation complete
  unfold Form.value Form.separators
  rw [forms.fragments, filled.separators, List.append_nil]
  rfl

/-- A variant of keywords takes its own tokens if they are spelled as keywords are in values. -/
theorem isFilledBy_fragments_iff (derivation : Derivation standard grammar expansion items tree)
    (member : variant ∈ expansion.variants) (keywords : variant.IsKeywords) :
    standard.IsFilledBy variant variant.fragments ↔
      ∀ place ∈ variant.places, Fragment.isKeyword place.token = true := by
  have each := isKeyword_of_mem derivation member keywords
  have own : List.Forall₂ standard.Takes variant.places (variant.places.map (·.token)) ↔
      ∀ place ∈ variant.places, Fragment.isKeyword place.token = true := by
    rw [List.forall₂_map_right_iff, List.forall₂_same]
    exact forall₂_congr fun place inside => (each place inside).takes_iff
  constructor
  · intro filled
    obtain ⟨front, initial, taken⟩ := filled.admits
    obtain rfl : front = variant.places :=
      initial.eq_of_length (taken.length_eq.trans filled.length.symm)
    exact own.mp taken
  · intro spelled
    exact ⟨(List.length_map _).symm, rfl, variant.places, List.prefix_rfl, own.mpr spelled⟩

/-! ### Main result -/

/-- A variant of keywords is a complete value of its grammar exactly if some variant with its separators
takes its tokens one by one. It takes them itself exactly if all of them are keywords in values, and then
it is a complete value. -/
theorem keywords_legal_iff (expanded : standard.expand grammar = .ok expansion)
    (structured : expansion.isStructured = true) (member : variant ∈ expansion.variants)
    (keywords : variant.IsKeywords) :
    (standard.IsLegal grammar variant ↔
      ∃ other ∈ expansion.variants, standard.IsFilledBy other variant.fragments) ∧
    (standard.IsFilledBy variant variant.fragments ↔
      ∀ place ∈ variant.places, place.token.toList ∈ Literal.keywords) ∧
    ((∀ place ∈ variant.places, place.token.toList ∈ Literal.keywords) →
      standard.IsLegal grammar variant) := by
  obtain ⟨items, tree, derivation⟩ := exists_derivation expanded structured
  have split := ofValue_text derivation member keywords
  have own := isFilledBy_fragments_iff derivation member keywords
  simp only [Fragment.isKeyword_iff] at own
  have legal : standard.IsLegal grammar variant ↔
      ∃ other ∈ expansion.variants, standard.IsFilledBy other variant.fragments := by
    unfold IsLegal
    rw [form_eq_formIn expanded structured]
    constructor
    · rintro ⟨form, formed, complete, -⟩
      obtain ⟨literals, forms⟩ := exists_forms formed
      obtain ⟨-, filled⟩ := forms.isFilledBy derivation complete
      exact ⟨form.variant, forms.variant, split ▸ filled⟩
    · rintro ⟨other, listed, filled⟩
      rw [← split] at filled
      obtain ⟨form, formed, complete⟩ := exists_complete_form derivation listed filled
      refine ⟨form, formed, complete, ?_⟩
      rw [value_of_complete derivation formed complete, split]
      rfl
  exact ⟨legal, own, fun spelled => legal.mpr ⟨variant, member, own.mpr spelled⟩⟩

/-- The first of three alternatives; the last one is no value. -/
theorem keywords_legal_iff_row :
    ∃ expansion variant, standard.expand "left , -x-start | auto | Auto" = .ok expansion ∧
      expansion.isStructured = true ∧ variant ∈ expansion.variants ∧ variant.IsKeywords ∧
      variant.text = "left, -x-start" ∧
      standard.IsLegal "left , -x-start | auto | Auto" variant := by
  have found : (standard.expand "left , -x-start | auto | Auto").toOption.any (fun expansion =>
      expansion.isStructured && expansion.variants.any fun variant =>
        variant.text == "left, -x-start" && variant.places.all fun place =>
          Fragment.isKeyword place.token &&
            (Reference.parse place.token).toOption.any Reference.isKeyword) = true := by
    decide +kernel
  obtain ⟨expansion, expanded, checked⟩ := exists_ok_of_any found
  obtain ⟨structured, some⟩ := Bool.and_eq_true_iff.mp checked
  obtain ⟨variant, member, passed⟩ := List.any_eq_true.mp some
  obtain ⟨text, each⟩ := Bool.and_eq_true_iff.mp passed
  simp only [List.all_eq_true, Bool.and_eq_true] at each
  have keywords : variant.IsKeywords := fun place inside => exists_ok_of_any (each place inside).2
  have spelled : ∀ place ∈ variant.places, place.token.toList ∈ Literal.keywords :=
    fun place inside => Fragment.isKeyword_iff.mp (each place inside).1
  exact ⟨expansion, variant, expanded, structured, member, keywords, eq_of_beq text,
    (keywords_legal_iff expanded structured member keywords).2.2 spelled⟩

/-- A keyword with an underscore is no value of the grammar that consists of it. -/
theorem keyword_not_legal :
    ¬ ∀ (grammar : String) (expansion : Expansion) (variant : Variant),
      standard.expand grammar = .ok expansion → expansion.isStructured = true →
        variant ∈ expansion.variants → variant.IsKeywords → standard.IsLegal grammar variant := by
  intro claimed
  have found : (standard.expand "a_b").toOption.any (fun expansion =>
      expansion.isStructured && expansion.variants.any fun variant =>
        (standard.form "a_b" variant.text).toOption.isNone && variant.places.all fun place =>
          (Reference.parse place.token).toOption.any Reference.isKeyword) = true := by
    decide +kernel
  obtain ⟨expansion, expanded, checked⟩ := exists_ok_of_any found
  obtain ⟨structured, some⟩ := Bool.and_eq_true_iff.mp checked
  obtain ⟨variant, member, passed⟩ := List.any_eq_true.mp some
  obtain ⟨refused, each⟩ := Bool.and_eq_true_iff.mp passed
  have keywords : variant.IsKeywords := fun place inside =>
    exists_ok_of_any (List.all_eq_true.mp each place inside)
  obtain ⟨form, formed, -⟩ := claimed _ expansion variant expanded structured member keywords
  rw [formed] at refused
  cases refused

end Context

end ValueGrammar
