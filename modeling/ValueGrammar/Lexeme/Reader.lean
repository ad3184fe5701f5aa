import ValueGrammar.Error
import ValueGrammar.Text.Trim
import ValueGrammar.Text.Word

/-!
Reading a grammar into lexemes. Blanks may stand before every lexeme and mean nothing. Longer
delimiters are tried before shorter ones, and a call before a plain identifier.
-/
namespace ValueGrammar.Lexeme

open Text

/-- The counts of braces have to be below this limit. -/
def countLimit : Nat := Nat.pow 2 64

/-- A count: digits whose value is below the limit. -/
def readCount? (cs : List Char) : Option (Nat × List Char) :=
  match cs.takeWhile Char.isDigit with
  | [] => none
  | digits =>
    let count := Nat.ofDigitChars 10 digits 0
    if count < countLimit then some (count, cs.dropWhile Char.isDigit) else none

/-- What may follow the least count in braces: a comma and, if there is one, the greatest count.
Without the comma the greatest count is the least. -/
def readGreatest (min : Nat) (cs : List Char) : Option Nat × List Char :=
  match cs with
  | ',' :: rest =>
    match readCount? rest with
    | some (max, rest) => (some max, rest)
    | none => (none, rest)
  | _ => (some min, cs)

/-- Counts between braces: one count, a count and a comma, or two counts. -/
def readBraces? (cs : List Char) : Option ((Nat × Option Nat) × List Char) :=
  match cs with
  | '\x7b' :: rest =>
    match readCount? rest with
    | some (min, rest) =>
      let greatest := readGreatest min rest
      match greatest.2 with
      | '\x7d' :: rest => some ((min, greatest.1), rest)
      | _ => none
    | none => none
  | _ => none

/-- A multiplier. The sign `#` takes the braces behind it if they can be read. -/
def readMultiplier? (cs : List Char) : Option (Multiplier × List Char) :=
  match cs with
  | '?' :: rest => some (.optional, rest)
  | '*' :: rest => some (.zeroOrMore, rest)
  | '+' :: rest => some (.oneOrMore, rest)
  | '#' :: rest =>
    match readBraces? rest with
    | some ((min, max?), rest) => some (⟨min, max?, true⟩, rest)
    | none => some (.commaList, rest)
  | _ => (readBraces? cs).map fun read => (⟨read.1.1, read.1.2, false⟩, read.2)

/-- The inside of a reference between angle brackets, which is not empty. -/
def readAngled? (cs : List Char) : Option (List Char × List Char) :=
  match cs with
  | '<' :: rest =>
    match rest.takeWhile (· != '>'), rest.dropWhile (· != '>') with
    | inside@(_ :: _), '>' :: rest => some (inside, rest)
    | _, _ => none
  | _ => none

def readToken? (cs : List Char) : Option (List Char × List Char) :=
  match readAngled? cs with
  | some (inside, rest) => some ('<' :: inside ++ ['>'], rest)
  | none =>
    match call? cs with
    | some (call, rest) => some (call.chars, rest)
    | none => identifier? cs

def next? (cs : List Char) : Option (Lexeme × List Char) :=
  match cs with
  | '|' :: '|' :: rest => some (doubleBar, rest)
  | '&' :: '&' :: rest => some (doubleAmpersand, rest)
  | '|' :: rest => some (bar, rest)
  | '[' :: rest => some (opening, rest)
  | ']' :: rest => some (closing, rest)
  | ',' :: rest => some (comma, rest)
  | '/' :: rest => some (slash, rest)
  | _ =>
    match readMultiplier? cs with
    | some (m, rest) => some (multiplier m, rest)
    | none => (readToken? cs).map fun read => (token (String.ofList read.1), read.2)

theorem readCount?_shorter {cs : List Char} {count : Nat} {rest : List Char}
    (h : readCount? cs = some (count, rest)) : rest.length ≤ cs.length := by
  unfold readCount? at h
  split at h
  · cases h
  · simp only [Option.ite_none_right_eq_some, Option.some.injEq, Prod.mk.injEq] at h
    rw [← h.2.2]
    exact (List.dropWhile_suffix Char.isDigit).length_le

theorem readGreatest_shorter (min : Nat) (cs : List Char) :
    (readGreatest min cs).2.length ≤ cs.length := by
  unfold readGreatest
  split
  · next rest =>
    split
    · next found =>
      have := readCount?_shorter found
      simp only [List.length_cons]
      omega
    · simp
  · simp

theorem readBraces?_shorter {cs : List Char} {counts : Nat × Option Nat} {rest : List Char}
    (h : readBraces? cs = some (counts, rest)) : rest.length < cs.length := by
  unfold readBraces? at h
  split at h
  · split at h
    · next min after found =>
      simp only at h
      split at h
      · next remaining closed =>
        simp only [Option.some.injEq, Prod.mk.injEq] at h
        have first := readCount?_shorter found
        have second := readGreatest_shorter min after
        rw [closed] at second
        rw [← h.2]
        simp only [List.length_cons] at *
        omega
      · cases h
    · cases h
  · cases h

theorem readMultiplier?_shorter {cs : List Char} {m : Multiplier} {rest : List Char}
    (h : readMultiplier? cs = some (m, rest)) : rest.length < cs.length := by
  unfold readMultiplier? at h
  split at h
  · simp_all
  · simp_all
  · simp_all
  · split at h
    · next found =>
      have := readBraces?_shorter found
      simp_all only [Option.some.injEq, Prod.mk.injEq, List.length_cons]
      omega
    · simp_all
  · obtain ⟨read, found, eq⟩ := Option.map_eq_some_iff.1 h
    simp only [Prod.mk.injEq] at eq
    rw [← eq.2]
    exact readBraces?_shorter found

theorem readAngled?_eq_some {cs inside rest : List Char}
    (h : readAngled? cs = some (inside, rest)) : cs = '<' :: inside ++ '>' :: rest := by
  unfold readAngled? at h
  split at h
  · next after =>
    split at h
    · next first more remaining taken dropped =>
      simp only [Option.some.injEq, Prod.mk.injEq] at h
      have whole := List.takeWhile_append_dropWhile (p := (· != '>')) (l := after)
      rw [taken, dropped] at whole
      rw [← whole, ← h.1, ← h.2]
      rfl
    · cases h
  · cases h

/-- A token is read as it is written. -/
theorem readToken?_eq_some {cs text rest : List Char} (h : readToken? cs = some (text, rest)) :
    cs = text ++ rest ∧ text ≠ [] := by
  unfold readToken? at h
  split at h
  · next found =>
    simp only [Option.some.injEq, Prod.mk.injEq] at h
    rw [readAngled?_eq_some found, ← h.1, ← h.2]
    simp
  · split at h
    · next found =>
      simp only [Option.some.injEq, Prod.mk.injEq] at h
      rw [call?_eq_some found, ← h.1, ← h.2]
      simp [Call.chars]
    · exact identifier?_eq_some h

theorem next?_shorter {cs : List Char} {x : Lexeme} {rest : List Char}
    (h : next? cs = some (x, rest)) : rest.length < cs.length := by
  unfold next? at h
  split at h
  case h_8 =>
    split at h
    · next found =>
      simp only [Option.some.injEq, Prod.mk.injEq] at h
      rw [← h.2]
      exact readMultiplier?_shorter found
    · obtain ⟨read, found, eq⟩ := Option.map_eq_some_iff.1 h
      simp only [Prod.mk.injEq] at eq
      obtain ⟨whole, nonempty⟩ := readToken?_eq_some found
      rw [← eq.2, whole, List.length_append]
      have := List.length_pos_iff.2 nonempty
      omega
  all_goals
    simp only [Option.some.injEq, Prod.mk.injEq] at h
    rw [← h.2]
    simp only [List.length_cons]
    omega

/-- The lexemes of a text, or the characters at which no lexeme starts. -/
def readAll (cs : List Char) : Except (List Char) (List Lexeme) :=
  match _start : dropBlanks cs with
  | [] => .ok []
  | c :: more =>
    match _found : next? (c :: more) with
    | none => .error (c :: more)
    | some (x, rest) => (readAll rest).map (x :: ·)
termination_by cs.length
decreasing_by
  have shorter := next?_shorter _found
  have atMost := length_dropBlanks_le cs
  rw [_start] at atMost
  omega

def ofGrammar (grammar : String) : Except Error (List Lexeme) :=
  match readAll grammar.toList with
  | .ok xs => .ok xs
  | .error rest => .error (.malformed (.unexpectedInput (String.ofList rest) grammar))

end ValueGrammar.Lexeme
