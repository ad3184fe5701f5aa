import ValueGrammar.Proofs.Expansion.Derivation
import ValueGrammar.Proofs.Tree.Juxtaposition

/-!
Grammars composed of grammars. A grammar between brackets keeps its tree whatever stands around it,
so the tree of a row or of a choice of bracketed grammars follows from theirs.
-/
namespace ValueGrammar

/-! ### Texts -/

def bracketed (grammar : String) : String :=
  "[ " ++ grammar ++ " ]"

def Combinator.between : Combinator → String
  | list => ", "
  | choice => " | "
  | someOf => " || "
  | allOf => " && "
  | sequence => " "

def Combinator.row (combinator : Combinator) (grammars : List String) : String :=
  combinator.between.intercalate grammars

namespace Lexeme

variable {first second : String} {xs ys : List Lexeme}

theorem ofGrammar_append (front : ofGrammar first = .ok xs) (apart : StartsApart second.toList)
    (back : ofGrammar second = .ok ys) : ofGrammar (first ++ second) = .ok (xs ++ ys) := by
  rw [ofGrammar_eq_ok] at front back ⊢
  rw [String.toList_append, readAll_append front apart, back]
  rfl

theorem startsApart_cons {c : Char} (apart : Unicode.isBlank c = true ∨ c = ',') (cs : List Char) :
    StartsApart (c :: cs) := by
  intro c' member
  cases member
  exact apart

/-- What has been read of a trimmed grammar is read of the grammar. -/
theorem ofGrammar_of_trim (read : ofGrammar (Text.trim first) = .ok xs) :
    ofGrammar first = .ok xs := by
  obtain ⟨before, after, blankBefore, blankAfter, whole⟩ := Text.exists_trimChars first.toList
  rw [ofGrammar_eq_ok, Text.trim, String.toList_ofList] at read
  have drop : Text.dropBlanks first.toList = Text.dropBlanks (Text.trimChars first.toList ++ after) := by
    conv_lhs => rw [whole, List.append_assoc]
    exact List.dropWhile_append_of_pos blankBefore
  have apart : StartsApart after := fun c member =>
    Or.inl (blankAfter c (List.mem_of_mem_head? member))
  have none : readAll after = .ok [] := by
    apply readAll_of_blank
    rw [Text.dropBlanks, List.dropWhile_eq_nil_iff]
    exact blankAfter
  rw [ofGrammar_eq_ok, ← readAll_dropBlanks, drop, readAll_dropBlanks, readAll_append read apart,
    none]
  exact congrArg Except.ok (List.append_nil xs)

theorem ofGrammar_bracketed (read : ofGrammar first = .ok xs) :
    ofGrammar (bracketed first) = .ok (Tree.Core.brackets xs).lexemes := by
  have closing : ofGrammar " ]" = .ok [.closing] := by
    rw [ofGrammar_eq_ok]
    change readAll [' ', ']'] = _
    rw [readAll_blank _ (by decide), readAll_closing, readAll_nil]
    rfl
  have apart : StartsApart " ]".toList := startsApart_cons (c := ' ') (by decide) [']']
  have inside := ofGrammar_append read apart closing
  rw [ofGrammar_eq_ok] at inside ⊢
  rw [bracketed, String.append_assoc, String.toList_append]
  change readAll ('[' :: ' ' :: (first ++ " ]").toList) = _
  rw [readAll_opening, readAll_blank _ (by decide), inside]
  rfl

theorem ofGrammar_optional (read : ofGrammar first = .ok xs) :
    ofGrammar (bracketed first ++ "?") =
      .ok ((Tree.Core.brackets xs).lexemes ++ [.multiplier .optional]) := by
  have closing : ofGrammar " ]?" = .ok [.closing, .multiplier .optional] := by
    rw [ofGrammar_eq_ok]
    change readAll [' ', ']', '?'] = _
    rw [readAll_blank _ (by decide), readAll_closing,
      readAll_cons (x := .multiplier .optional) (by decide) rfl, readAll_nil]
    rfl
  have apart : StartsApart " ]?".toList := startsApart_cons (c := ' ') (by decide) [']', '?']
  have inside := ofGrammar_append read apart closing
  rw [ofGrammar_eq_ok] at inside ⊢
  have whole : bracketed first ++ "?" = "[ " ++ (first ++ " ]?") := by
    rw [bracketed, String.append_assoc, String.append_assoc]
    rfl
  rw [whole, String.toList_append]
  change readAll ('[' :: ' ' :: (first ++ " ]?").toList) = _
  rw [readAll_opening, readAll_blank _ (by decide), inside]
  exact congrArg Except.ok (by simp [Tree.Core.lexemes])

/-- What stands between two operands is read as their delimiter. -/
theorem ofGrammar_between (combinator : Combinator) (front : ofGrammar first = .ok xs)
    (back : ofGrammar second = .ok ys) :
    ofGrammar (first ++ combinator.between ++ second) = .ok (xs ++ combinator.delimiter ++ ys) := by
  have apart : StartsApart (combinator.between ++ second).toList := by
    rw [String.toList_append]
    cases combinator <;> exact startsApart_cons (by decide) _
  have behind : ofGrammar (combinator.between ++ second) = .ok (combinator.delimiter ++ ys) := by
    rw [ofGrammar_eq_ok] at back ⊢
    rw [String.toList_append]
    cases combinator with
    | list =>
      change readAll (',' :: ' ' :: second.toList) = _
      rw [readAll_cons (x := .comma) (by decide) rfl, readAll_blank _ (by decide), back]
      rfl
    | choice =>
      change readAll (' ' :: '|' :: ' ' :: second.toList) = _
      rw [readAll_blank _ (by decide), readAll_cons (x := .bar) (by decide) rfl,
        readAll_blank _ (by decide), back]
      rfl
    | someOf =>
      have bars : next? (Text.dropBlanks (' ' :: '|' :: '|' :: ' ' :: second.toList)) =
          some (.doubleBar, ' ' :: second.toList) := rfl
      change readAll (' ' :: '|' :: '|' :: ' ' :: second.toList) = _
      rw [readAll_of_next? bars, readAll_blank _ (by decide), back]
      rfl
    | allOf =>
      have ampersands : next? (Text.dropBlanks (' ' :: '&' :: '&' :: ' ' :: second.toList)) =
          some (.doubleAmpersand, ' ' :: second.toList) := rfl
      change readAll (' ' :: '&' :: '&' :: ' ' :: second.toList) = _
      rw [readAll_of_next? ampersands, readAll_blank _ (by decide), back]
      rfl
    | sequence =>
      change readAll (' ' :: second.toList) = _
      rw [readAll_blank _ (by decide), back]
      rfl
  rw [String.append_assoc, List.append_assoc]
  exact ofGrammar_append front apart behind

theorem ofGrammar_row (combinator : Combinator) {grammars : List String} {runs : List (List Lexeme)}
    (each : List.Forall₂ (fun grammar run => ofGrammar grammar = .ok run) grammars runs) :
    ofGrammar (combinator.row grammars) = .ok (combinator.delimiter.intercalate runs) := by
  unfold Combinator.row
  induction each with
  | nil => exact ofGrammar_eq_ok.mpr readAll_nil
  | cons here others ih =>
    cases others with
    | nil =>
      rw [String.intercalate_singleton, List.intercalate_singleton]
      exact here
    | cons next others =>
      rw [String.intercalate_cons_cons, List.intercalate_cons_cons]
      exact ofGrammar_between combinator here ih

end Lexeme

/-! ### Substitution of parts -/

namespace Registry

/-- A run is rewritten to another one, and every key in it has a definition. -/
def Rewrites (registry : Registry) (xs items : List Lexeme) : Prop :=
  Substitution.walk (registry.replace []) [] xs [] = .ok ⟨items, []⟩

variable {registry : Registry} {xs ys items : List Lexeme}

theorem Rewrites.append (rewrites : registry.Rewrites (xs ++ ys) items) :
    ∃ front back, registry.Rewrites xs front ∧ registry.Rewrites ys back ∧ items = front ++ back := by
  rw [Rewrites, Substitution.walk_append] at rewrites
  obtain ⟨⟨front, between⟩, walkedFront, behind⟩ := bind_eq_ok.mp rewrites
  obtain ⟨⟨back, unknown⟩, walkedBack, eq⟩ := bind_eq_ok.mp behind
  cases eq
  -- Without unknown keys at the end there are none in between.
  have known : between = [] := ((substitutes_of_walk walkedBack).settles rfl).1
  subst known
  exact ⟨front, back, walkedFront, walkedBack, rfl⟩

/-- Lexemes that are no tokens stay. -/
theorem Rewrites.cons {x : Lexeme} (other : ∀ text, x ≠ .token text)
    (rewrites : registry.Rewrites (x :: ys) items) :
    ∃ back, registry.Rewrites ys back ∧ items = x :: back := by
  rw [Rewrites, Substitution.walk_cons] at rewrites
  obtain ⟨head, replaced, behind⟩ := bind_eq_ok.mp rewrites
  obtain ⟨⟨back, unknown⟩, walked, eq⟩ := bind_eq_ok.mp behind
  rw [Substitution.replaced_of_plain other] at replaced
  cases replaced
  cases eq
  exact ⟨back, walked, rfl⟩

theorem Rewrites.brackets (rewrites : registry.Rewrites (Tree.Core.brackets xs).lexemes items) :
    ∃ inner, registry.Rewrites xs inner ∧ items = (Tree.Core.brackets inner).lexemes := by
  obtain ⟨behind, rewritesBehind, rfl⟩ := Rewrites.cons (fun _ => by simp) rewrites
  obtain ⟨inner, last, rewritesInner, rewritesLast, rfl⟩ := rewritesBehind.append
  obtain ⟨none, rewritesNone, rfl⟩ := Rewrites.cons (fun _ => by simp) rewritesLast
  cases rewritesNone
  exact ⟨inner, rewritesInner, rfl⟩

theorem Rewrites.delimiter {combinator : Combinator}
    (rewrites : registry.Rewrites (combinator.delimiter ++ ys) items) :
    ∃ back, registry.Rewrites ys back ∧ items = combinator.delimiter ++ back := by
  cases combinator with
  | sequence => exact ⟨items, rewrites, rfl⟩
  | _ => exact rewrites.cons fun _ => by simp

/-- The operands of a row are rewritten each for itself. -/
theorem Rewrites.intercalate {combinator : Combinator} {runs : List (List Lexeme)}
    (rewrites : registry.Rewrites (combinator.delimiter.intercalate runs) items) :
    ∃ runs', List.Forall₂ registry.Rewrites runs runs' ∧
      items = combinator.delimiter.intercalate runs' := by
  induction runs generalizing items with
  | nil =>
    cases rewrites
    exact ⟨[], .nil, rfl⟩
  | cons run runs ih =>
    cases runs with
    | nil =>
      rw [List.intercalate_singleton] at rewrites
      exact ⟨[items], .cons rewrites .nil, List.intercalate_singleton.symm⟩
    | cons next runs =>
      rw [List.intercalate_cons_cons, List.append_assoc] at rewrites
      obtain ⟨front, behind, rewritesFront, rewritesBehind, rfl⟩ := rewrites.append
      obtain ⟨back, rewritesBack, rfl⟩ := rewritesBehind.delimiter
      obtain ⟨runs', each, rfl⟩ := ih rewritesBack
      refine ⟨front :: runs', .cons rewritesFront each, ?_⟩
      cases each
      rw [List.intercalate_cons_cons, List.append_assoc]

end Registry

/-! ### Trees of composed grammars -/

namespace Context

/-- A grammar is accepted if its substitution has a tree. -/
def Accepts (context : Context) (grammar : String) (tree : Tree) : Prop :=
  ∃ substitution, context.registry.substitute grammar = .ok substitution ∧
    Tree.ofLexemes substitution.items = .ok tree

/-- A grammar denotes a tree if that is the tree of what its lexemes are rewritten to. -/
def Denotes (context : Context) (grammar : String) (tree : Tree) : Prop :=
  ∃ xs, Lexeme.ofGrammar grammar = .ok xs ∧
    ∀ items, context.registry.Rewrites xs items → Tree.ofLexemes items = .ok tree

/-- A grammar denotes a row of trees if its lexemes are rewritten to a row of operands with these
trees. -/
def DenotesRow (context : Context) (grammar : String) (trees : List Tree) : Prop :=
  ∃ xs, Lexeme.ofGrammar grammar = .ok xs ∧
    ∀ items, context.registry.Rewrites xs items →
      ∃ found, items = found.flatMap Tree.Part.lexemes ∧ List.Forall₂ Tree.Part.Reads found trees

/-- A grammar denotes an operand of a combinator with a tree if its lexemes are rewritten to one. -/
def DenotesOperand (context : Context) (combinator : Combinator) (grammar : String) (tree : Tree) :
    Prop :=
  ∃ xs, Lexeme.ofGrammar grammar = .ok xs ∧
    ∀ items, context.registry.Rewrites xs items → Tree.IsOperand combinator items tree

variable {context : Context} {first second : String} {left right : Tree} {trees trees' : List Tree}

theorem Accepts.denotes (accepted : context.Accepts first left) : context.Denotes first left := by
  obtain ⟨substitution, substituted, built⟩ := accepted
  obtain ⟨xs, read, walked⟩ := bind_eq_ok.mp substituted
  refine ⟨xs, read, fun items rewrites => ?_⟩
  rw [Registry.Rewrites, walked] at rewrites
  cases rewrites
  exact built

theorem Denotes.of_trim (denotes : context.Denotes (Text.trim first) left) :
    context.Denotes first left := by
  obtain ⟨xs, read, built⟩ := denotes
  exact ⟨xs, Lexeme.ofGrammar_of_trim read, built⟩

theorem Denotes.bracketed (denotes : context.Denotes first left) :
    context.DenotesRow (bracketed first) [left] := by
  obtain ⟨xs, read, built⟩ := denotes
  refine ⟨_, Lexeme.ofGrammar_bracketed read, fun items rewrites => ?_⟩
  obtain ⟨inner, rewritesInner, rfl⟩ := rewrites.brackets
  refine ⟨[⟨.brackets inner, []⟩], ?_, .cons ?_ .nil⟩
  · rw [List.flatMap_singleton, Tree.Part.lexemes, List.map_nil, List.append_nil]
  · exact Tree.reads_brackets (built inner rewritesInner) []

theorem Denotes.optional (denotes : context.Denotes first left) :
    context.DenotesRow (ValueGrammar.bracketed first ++ "?") [.repeated left .optional] := by
  obtain ⟨xs, read, built⟩ := denotes
  refine ⟨_, Lexeme.ofGrammar_optional read, fun items rewrites => ?_⟩
  obtain ⟨front, back, rewritesFront, rewritesBack, rfl⟩ := rewrites.append
  obtain ⟨inner, rewritesInner, rfl⟩ := rewritesFront.brackets
  obtain ⟨none, rewritesNone, rfl⟩ := Registry.Rewrites.cons (fun _ => by simp) rewritesBack
  cases rewritesNone
  refine ⟨[⟨.brackets inner, [.optional]⟩], ?_, .cons ?_ .nil⟩
  · rw [List.flatMap_singleton]
    rfl
  · exact Tree.reads_brackets (built inner rewritesInner) [.optional]

theorem DenotesRow.beside (front : context.DenotesRow first trees)
    (back : context.DenotesRow second trees') :
    context.DenotesRow (first ++ " " ++ second) (trees ++ trees') := by
  obtain ⟨xs, readFront, rowFront⟩ := front
  obtain ⟨ys, readBack, rowBack⟩ := back
  have read := Lexeme.ofGrammar_between .sequence readFront readBack
  rw [Combinator.delimiter, List.append_nil] at read
  refine ⟨_, read, fun items rewrites => ?_⟩
  obtain ⟨items, items', rewritesFront, rewritesBack, rfl⟩ := rewrites.append
  obtain ⟨found, rfl, each⟩ := rowFront items rewritesFront
  obtain ⟨found', rfl, each'⟩ := rowBack items' rewritesBack
  exact ⟨found ++ found', List.flatMap_append.symm, List.rel_append each each'⟩

theorem DenotesRow.denotes (row : context.DenotesRow first trees) :
    context.Denotes first (.ofSequence trees) := by
  obtain ⟨xs, read, rows⟩ := row
  refine ⟨xs, read, fun items rewrites => ?_⟩
  obtain ⟨found, rfl, each⟩ := rows items rewrites
  exact Tree.ofLexemes_row each

theorem Denotes.isOperand (denotes : context.Denotes first left) (combinator : Combinator) :
    context.DenotesOperand combinator (ValueGrammar.bracketed first) left := by
  obtain ⟨xs, read, built⟩ := denotes
  refine ⟨_, Lexeme.ofGrammar_bracketed read, fun items rewrites => ?_⟩
  obtain ⟨inner, rewritesInner, rfl⟩ := rewrites.brackets
  exact Tree.isOperand_brackets (built inner rewritesInner) combinator

/-- A row of operands denotes the tree made of theirs. -/
theorem DenotesOperand.row {combinator : Combinator} {grammars : List String}
    (nonempty : grammars ≠ [])
    (each : List.Forall₂ (context.DenotesOperand combinator) grammars trees) :
    context.Denotes (combinator.row grammars) (.ofOperands combinator trees) := by
  obtain ⟨runs, read, operands⟩ : ∃ runs,
      List.Forall₂ (fun grammar run => Lexeme.ofGrammar grammar = .ok run) grammars runs ∧
      List.Forall₂ (fun run tree => ∀ items, context.registry.Rewrites run items →
        Tree.IsOperand combinator items tree) runs trees := by
    clear nonempty
    induction each with
    | nil => exact ⟨[], .nil, .nil⟩
    | cons here others ih =>
      obtain ⟨run, read, operand⟩ := here
      obtain ⟨runs, readOthers, operands⟩ := ih
      exact ⟨run :: runs, .cons read readOthers, .cons operand operands⟩
  refine ⟨_, Lexeme.ofGrammar_row combinator read, fun items rewrites => ?_⟩
  obtain ⟨runs', each', rfl⟩ := rewrites.intercalate
  have solid : runs' ≠ [] := by
    rintro rfl
    cases each'
    cases read
    exact nonempty rfl
  exact Tree.ofLexemes_operands solid
    (forall₂_trans (fun _ _ _ rewrites operand => operand _ rewrites) each'.flip operands)

theorem Denotes.either (front : context.Denotes first left) (back : context.Denotes second right) :
    context.Denotes (ValueGrammar.bracketed first ++ " | " ++ ValueGrammar.bracketed second)
      (.group .choice [left, right]) := by
  have row := DenotesOperand.row (List.cons_ne_nil _ _)
    (.cons (front.isOperand .choice) (.cons (back.isOperand .choice) .nil))
  rw [Combinator.row, String.intercalate_cons_cons, String.intercalate_singleton] at row
  exact row

/-- A grammar denotes the tree that its expansion is derived from. -/
theorem Denotes.of_derivation {expansion : Expansion} {items : List Lexeme} {tree : Tree}
    (derivation : Derivation context first expansion items tree) : context.Denotes first tree :=
  Denotes.of_trim (Accepts.denotes ⟨⟨items, []⟩, derivation.substituted, derivation.built⟩)

/-- A structured expansion of a grammar comes from the tree that the grammar denotes. -/
theorem Denotes.exists_derivation {tree : Tree} (denotes : context.Denotes first tree)
    {expansion : Expansion} (expanded : context.expand first = .ok expansion)
    (structured : expansion.isStructured = true) :
    ∃ items, Derivation context first expansion items tree := by
  obtain ⟨xs, read, built⟩ := denotes
  obtain ⟨items, tree', derivation⟩ := ValueGrammar.exists_derivation expanded structured
  obtain ⟨xs', readTrimmed, rewrites⟩ := bind_eq_ok.mp derivation.substituted
  have same := Lexeme.ofGrammar_of_trim readTrimmed
  rw [read] at same
  cases same
  have other := derivation.built
  rw [built items rewrites] at other
  cases other
  exact ⟨items, derivation⟩

end Context

end ValueGrammar
