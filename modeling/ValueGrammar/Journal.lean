import ValueGrammar.Property.Editor
import ValueGrammar.Text.Quoted

/-!
The journal: what a program that uses the library is told about its work, one line per record.
Records are computed beside the operations from the same inputs, so no operation carries them
along: a function of `Journal` with the name of an operation gives the records of that operation.
-/
namespace ValueGrammar

inductive Level where
  | warning | detail
  deriving DecidableEq, Repr

/-- The part of the library that a record is about. -/
inductive Topic where
  | context | expansion | truncation | classification | slots | editor
  deriving DecidableEq, Repr

structure Record where
  level : Level
  topic : Topic
  text : String
  deriving DecidableEq, Repr

def Level.name : Level → String
  | warning => "WARN"
  | detail => "DEBUG"

def Topic.path : Topic → String
  | context => "vds::context"
  | expansion => "vds::grammar"
  | truncation => "vds::grammar::expand"
  | classification => "vds::value::classify"
  | slots => "vds::slots"
  | editor => "stylekit_rs::editor"

def Record.line (record : Record) : String :=
  "[" ++ record.level.name ++ "] " ++ record.topic.path ++ ": " ++ record.text ++ "\n"

/-- Why no journal can be opened. -/
inductive JournalError where
  | alreadyOpen
  /-- Its file lies in a directory that does not exist. -/
  | noDirectory
  deriving DecidableEq, Repr

def JournalError.message : JournalError → String
  | alreadyOpen => "A logger is already installed"
  | noDirectory => "Log file error: No such file or directory (os error 2)"

namespace Tree

mutual

/-- Whether a step was cut off before the first group with too many operands was met. A tree
without such a group is cut off when its pieces are. -/
def isCutOff (limits : Limits) : Tree → Bool
  | token _ => false
  | separator _ => false
  | group combinator children =>
    if combinator.isUnordered && limits.operands < children.length then false
    else if (childExcess? limits.operands children).isSome then childIsCutOff limits children
    else (alternatives limits (group combinator children)).truncated
  | repeated body m =>
    if (excess? limits.operands body).isSome then isCutOff limits body
    else (alternatives limits (repeated body m)).truncated

def childIsCutOff (limits : Limits) : List Tree → Bool
  | [] => false
  | child :: children =>
    isCutOff limits child ||
      ((excess? limits.operands child).isNone && childIsCutOff limits children)

end

end Tree

namespace Journal

def built (context : Context) : Record :=
  ⟨.detail, .context, s!"grammar context built with {context.registry.size} tokens and " ++
    s!"{context.categories.length} token types"⟩

def unknownTokens (grammar : String) (unknown : List String) : Record :=
  ⟨.warning, .expansion, s!"grammar `{grammar}` references unknown tokens " ++
    Text.quotedList unknown ++ "; leaving it unexpanded"⟩

def truncated (limits : Limits) : Record :=
  ⟨.warning, .truncation, "grammar expansion truncated at " ++ limits.variants.repr ++
    " variants"⟩

/-- The records of an expansion that is not recalled. -/
def expansion (context : Context) (grammar : String) : List Record :=
  let grammar := Text.trim grammar
  if grammar.isEmpty then []
  else
    match context.registry.substitute grammar with
    | .error _ => []
    | .ok substitution =>
      if !substitution.unknown.isEmpty then [unknownTokens grammar substitution.unknown]
      else
        match Context.tree substitution.items with
        | .error _ => []
        | .ok tree => if tree.isCutOff context.limits then [truncated context.limits] else []

def expand (session : Session) (grammar : String) : List Record :=
  if session.context.limits.remembers then
    if (session.recalled? grammar).isSome then
      [⟨.detail, .context, s!"expansion cache hit for `{grammar}`"⟩]
    else
      ⟨.detail, .context, s!"expansion cache miss for `{grammar}`"⟩ ::
        expansion session.context grammar
  else expansion session.context grammar

def matching (context : Context) (expansion : Expansion) (texts : List String)
    (separators? : Option (List Separator)) : List Record :=
  match context.draft texts separators? with
  | .error _ => []
  | .ok draft =>
    match context.match? expansion.variants draft with
    | none => []
    | some found =>
      [⟨.detail, .slots, "value `" ++ draft.value ++ "` matched variant `" ++ found.variant.text ++
        "` (" ++ (if found.complete then "exact" else "prefix") ++ ")"⟩]

/-- The expansion that `Session.expand` answers, if it is structured. -/
def structured? (session : Session) (grammar : String) : Option Expansion :=
  ((session.expand grammar).1 >>= Context.structured).toOption

def form (session : Session) (grammar value : String) : List Record :=
  let fragments := Fragments.ofValue value
  expand session grammar ++
    match structured? session grammar with
    | some expansion =>
      matching session.context expansion fragments.texts (some fragments.separators)
    | none => []

def editIn (context : Context) (expansion : Expansion) (fragments : List String) (slot : Nat)
    (text : String) : List Record :=
  let edited := editedFragments fragments slot text
  if edited.isEmpty then [⟨.detail, .slots, s!"edit of slot {slot} cleared the value"⟩]
  else
    matching context expansion edited none ++
      match context.completed expansion edited with
      | .ok _ => []
      | .error error =>
        if error.isMismatch && slot + 1 < edited.length then
          ⟨.detail, .slots,
            s!"edit of slot {slot} matched nothing; retrying without trailing fragments"⟩ ::
            matching context expansion (edited.take (slot + 1)) none
        else []

def edit (session : Session) (grammar : String) (fragments : List String) (slot : Nat)
    (text : String) : List Record :=
  match checkSlot fragments slot with
  | .error _ => []
  | .ok () =>
    expand session grammar ++
      match structured? session grammar with
      | some expansion => editIn session.context expansion fragments slot text
      | none => []

def apply (editor : Editor) (session : Session) (value : String) (slot : Nat) (text : String) :
    List Record :=
  edit session editor.property.grammar (Fragments.ofValue value).texts slot text ++
    match (editor.apply session value slot text).1 with
    | .ok edited =>
      [⟨.detail, .editor, s!"{editor.property.name}: slot {slot} `{value}` -> `{edited}`"⟩]
    | .error _ => []

def bestGuesses (context : Context) (fragments : List String) : List Record :=
  fragments.filterMap fun fragment =>
    match context.classify fragment with
    | .ok _ => none
    | .error _ => some ⟨.detail, .classification, s!"dropping unclassifiable fragment `{fragment}`"⟩

def expandTwice (session : Session) (first second : String) : List Record :=
  expand session first ++
    match session.expand first with
    | (.ok _, session) => expand session second
    | (.error _, _) => []

end Journal

end ValueGrammar
