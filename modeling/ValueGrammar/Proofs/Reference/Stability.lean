import ValueGrammar.Proofs.Lexeme.Rendering

/-!
References that are written, keyed and narrowed. The text of a reference is read back as that
reference, its key is read as a reference with the same key, and further ranges change neither. The
words and calls among the tokens of a grammar are read as the keywords and functions they look like.
-/
namespace ValueGrammar

open Unicode Text

namespace Reference

/-! ### Keys -/

/-- A reference without ranges and arguments, which is all that its key keeps. -/
def bare : Reference → Reference
  | keyword name => keyword name
  | typed name _ => typed name []
  | function name _ => function name ""

theorem key_bare (reference : Reference) : reference.bare.key = reference.key := by
  cases reference <;> rfl

theorem text_bare (reference : Reference) : reference.bare.text = reference.key := by
  apply String.toList_injective
  cases reference <;> simp [bare, text, key]

theorem Proper.bare {reference : Reference} (proper : reference.Proper) :
    reference.bare.Proper := by
  cases reference with
  | keyword name => exact proper
  | typed name ranges => exact proper
  | function name arguments => exact ⟨proper.1, proper.2.1, fun rest => by simp [enclosed?], rfl⟩

/-- A key is the key of the reference that it is read as. -/
theorem keyOf_key {reference : Reference} (proper : reference.Proper) :
    keyOf reference.key = .ok reference.key := by
  have parsed := parse_text proper.bare
  rw [text_bare] at parsed
  rw [keyOf, parsed, Except.map, key_bare]

/-! ### Tokens of grammars -/

theorem parse_call {text : String} {call : Call} (spelled : text.toList = call.chars)
    (nonempty : call.name ≠ []) (letters : ∀ c ∈ call.name, isIdentifierChar c = true)
    (enclosed : Enclosable Nesting.outside call.arguments) : parse text = .ok (ofCall call) := by
  obtain ⟨first, last⟩ := call_stops call nonempty letters
  rw [parse, spelled, trimChars_eq_self first last, read?_call call nonempty letters enclosed]

/-- Identifiers: at least one character, all of them letters, numbers, hyphens or underscores. -/
def IsWord (name : String) : Prop :=
  name.toList ≠ [] ∧ ∀ c ∈ name.toList, isIdentifierChar c = true

/-- The characters of a call determine where its name ends. -/
theorem eq_of_chars {call call' : Call} (letters : ∀ c ∈ call.name, isIdentifierChar c = true)
    (letters' : ∀ c ∈ call'.name, isIdentifierChar c = true) (same : call.chars = call'.chars) :
    call = call' := by
  obtain ⟨name, arguments⟩ := call
  obtain ⟨name', arguments'⟩ := call'
  have stop (more : List Char) : StopsBefore isIdentifierChar ('(' :: more) :=
    .cons (by decide +kernel) more
  simp only [Call.chars, List.append_assoc, List.cons_append] at same
  have names := congrArg (List.takeWhile isIdentifierChar) same
  rw [takeWhile_append_stop letters (stop _), takeWhile_append_stop letters' (stop _)] at names
  subst names
  have closed := (List.cons.inj (List.append_cancel_left same)).2
  rw [List.append_cancel_right closed]

/-- A token that is a name with arguments between parentheses is a call. -/
theorem enclosable_of_isToken {call : Call} (nonempty : call.name ≠ [])
    (letters : ∀ c ∈ call.name, isIdentifierChar c = true) (shape : Lexeme.IsToken call.chars) :
    Enclosable Nesting.outside call.arguments := by
  have opening : '(' ∈ call.chars := by simp [Call.chars]
  generalize spelled : call.chars = chars at shape opening
  cases shape with
  | angled =>
    obtain ⟨c, cs, name⟩ := List.exists_cons_of_ne_nil nonempty
    rw [Call.chars, name] at spelled
    have angle : c = '<' := (List.cons.inj spelled).1
    exact absurd angle (not_angle_of_letter (letters c (name ▸ List.mem_cons_self)))
  | call _ word enclosed =>
    rw [eq_of_chars letters word spelled]
    exact enclosed
  | identifier _ word => exact absurd (word _ opening) (by decide +kernel)

/-- A token that is a word is read as the keyword it is, and one that is a word with arguments
between parentheses as the function of that name. -/
structure ReadAsWritten (token : String) : Prop where
  keyword : IsWord token → parse token = .ok (keyword token)
  function : ∀ name arguments, IsWord name → token = name ++ "(" ++ arguments ++ ")" →
    parse token = .ok (function name (Text.trim arguments))

theorem readAsWritten_of_isToken {token : String} (shape : Lexeme.IsToken token.toList) :
    ReadAsWritten token := by
  constructor
  case keyword =>
    intro word
    exact @parse_text (.keyword token) word
  case function =>
    intro name arguments word spelled
    have chars : token.toList = Call.chars ⟨name.toList, arguments.toList⟩ := by
      simp [spelled, Call.chars]
    rw [chars] at shape
    have enclosed := enclosable_of_isToken word.1 word.2 shape
    rw [parse_call chars word.1 word.2 enclosed, ofCall, String.ofList_toList, Text.trim]

/-! ### Stability -/

/-- What is written for a reference is read as that reference: its text, its key up to what the key
leaves out, and its text with further ranges, which leave the key as it is. -/
structure ReadsBack (reference : Reference) : Prop where
  text : parse reference.text = .ok reference
  key : keyOf reference.key = .ok reference.key
  narrowed : ∀ extra, parse (reference.narrowedBy extra).text = .ok (reference.narrowedBy extra) ∧
    (reference.narrowedBy extra).key = reference.key

theorem readsBack_of_parse {raw : String} {reference : Reference}
    (parsed : parse raw = .ok reference) : ReadsBack reference := by
  have proper := proper_of_parse parsed
  exact ⟨parse_text proper, keyOf_key proper,
    fun extra => ⟨parse_text_narrowedBy parsed extra, key_narrowedBy reference extra⟩⟩

/-- References are stable, and the tokens of a grammar are references. -/
theorem references_stable :
    (∀ raw reference, parse raw = .ok reference → ReadsBack reference) ∧
      ∀ grammar items token, Lexeme.ofGrammar grammar = .ok items → .token token ∈ items →
        ReadAsWritten token := by
  refine ⟨fun raw reference parsed => readsBack_of_parse parsed, ?_⟩
  intro grammar items token lexed member
  have readable := Lexeme.isReadable_of_readAll (Lexeme.ofGrammar_eq_ok.mp lexed) _ member
  exact readAsWritten_of_isToken readable

/-- Open bounds are written out as infinities, and the token `scale( 2 )` is read without the blanks
inside its parentheses. -/
theorem references_stable_open_bound :
    (∃ reference, parse "<number [-5, 10] [,inf]>" = .ok reference ∧
      reference.text = "<number [-5,10] [-∞,∞]>" ∧ ReadsBack reference) ∧
    ∃ items, Lexeme.ofGrammar "auto scale( 2 )" = .ok items ∧
      items = [.token "auto", .token "scale( 2 )"] ∧ ReadAsWritten "auto" ∧
        ReadAsWritten "scale( 2 )" := by
  obtain ⟨read, lexed⟩ := references_stable
  have parsed : (parse "<number [-5, 10] [,inf]>").toOption.any
      (·.text == "<number [-5,10] [-∞,∞]>") = true := by decide +kernel
  have tokens : (Lexeme.ofGrammar "auto scale( 2 )").toOption.any
      (· == [.token "auto", .token "scale( 2 )"]) = true := by decide +kernel
  obtain ⟨reference, found, written⟩ := exists_ok_of_any parsed
  obtain ⟨items, listed, same⟩ := exists_ok_of_any tokens
  cases eq_of_beq same
  exact ⟨⟨reference, found, eq_of_beq written, read _ _ found⟩, _, listed, rfl,
    lexed _ _ _ listed (by simp), lexed _ _ _ listed (by simp)⟩

end Reference

end ValueGrammar
