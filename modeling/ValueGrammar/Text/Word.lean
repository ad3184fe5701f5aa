import ValueGrammar.Unicode.Alphanumeric
import ValueGrammar.Text.Nesting

/-!
Identifiers and calls, the two word shapes shared by grammars, references and values. Readers
take a character list and answer what they read with the characters they left.
-/
namespace ValueGrammar.Text

open Unicode

def isIdentifierChar (c : Char) : Bool :=
  isAlphanumeric c || c == '-' || c == '_'

/-- The longest identifier at the start of a text. -/
def identifier? (cs : List Char) : Option (List Char × List Char) :=
  match cs.takeWhile isIdentifierChar with
  | [] => none
  | name => some (name, cs.dropWhile isIdentifierChar)

/-- The characters up to the parenthesis that closes an opened one, and those after it.
Parentheses nested deeper and parentheses in quotes are passed over. -/
def enclosed? (nesting : Nesting) : List Char → Option (List Char × List Char)
  | [] => none
  | c :: rest =>
    if c = ')' ∧ nesting = Nesting.outside then some ([], rest)
    else (enclosed? (nesting.advance c) rest).map fun read => (c :: read.1, read.2)

/-- A call: an identifier and, between parentheses, its arguments as they are written. -/
structure Call where
  name : List Char
  arguments : List Char
  deriving DecidableEq, Repr

def Call.chars (call : Call) : List Char :=
  call.name ++ '(' :: call.arguments ++ [')']

def call? (cs : List Char) : Option (Call × List Char) :=
  match identifier? cs with
  | some (name, '(' :: rest) =>
    (enclosed? Nesting.outside rest).map fun read => (⟨name, read.1⟩, read.2)
  | _ => none

theorem identifier?_eq_some {cs name rest : List Char} (h : identifier? cs = some (name, rest)) :
    cs = name ++ rest ∧ name ≠ [] := by
  unfold identifier? at h
  split at h
  · cases h
  · next nonempty =>
    simp only [Option.some.injEq, Prod.mk.injEq] at h
    obtain ⟨rfl, rfl⟩ := h
    exact ⟨List.takeWhile_append_dropWhile.symm, nonempty⟩

theorem enclosed?_eq_some {cs : List Char} {nesting : Nesting} {inner rest : List Char}
    (h : enclosed? nesting cs = some (inner, rest)) : cs = inner ++ ')' :: rest := by
  induction cs generalizing nesting inner rest with
  | nil => simp [enclosed?] at h
  | cons c cs ih =>
    unfold enclosed? at h
    split at h
    · next stop =>
      simp only [Option.some.injEq, Prod.mk.injEq] at h
      simp [stop.1, ← h.1, ← h.2]
    · obtain ⟨⟨within, beyond⟩, found, eq⟩ := Option.map_eq_some_iff.1 h
      simp only [Prod.mk.injEq] at eq
      obtain ⟨rfl, rfl⟩ := eq
      rw [ih found]
      rfl

theorem call?_eq_some {cs : List Char} {call : Call} {rest : List Char}
    (h : call? cs = some (call, rest)) : cs = call.chars ++ rest := by
  unfold call? at h
  split at h
  · next name after found =>
    obtain ⟨read, inside, eq⟩ := Option.map_eq_some_iff.1 h
    simp only [Prod.mk.injEq] at eq
    rw [(identifier?_eq_some found).1, enclosed?_eq_some inside, ← eq.1, ← eq.2]
    simp [Call.chars]
  · cases h

end ValueGrammar.Text
