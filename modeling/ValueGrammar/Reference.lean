import ValueGrammar.Error
import ValueGrammar.Range
import ValueGrammar.Text.Trim
import ValueGrammar.Text.Word

/-!
References: how a grammar names a symbol. A keyword stands for itself, a typed reference such as
`<number [0,∞]>` carries numeric ranges, and a function reference such as `fit-content(<length>)`
carries the grammar of its arguments. The key of a reference leaves ranges and arguments out.
-/
namespace ValueGrammar

open Unicode Text

/-- A reference to a symbol. -/
inductive Reference where
  | keyword (name : String)
  | typed (name : String) (ranges : List Range)
  | function (name arguments : String)
  deriving DecidableEq, Repr

/-- What a reference says about its symbol besides the key. -/
inductive Parameters where
  /-- The overlap of all ranges. -/
  | range (range : Range)
  /-- The grammar of the arguments. -/
  | arguments (grammar : String)
  deriving DecidableEq, Repr

namespace Reference

/-- The key under which the symbol of a reference is registered. -/
def key : Reference → String
  | keyword name => name
  | typed name _ => "<" ++ name ++ ">"
  | function name _ => name ++ "()"

def isKeyword : Reference → Bool
  | keyword _ => true
  | _ => false

/-- The ranges of a reference; only typed references have any. -/
def ranges : Reference → List Range
  | typed _ ranges => ranges
  | _ => []

/-- The range in force: the overlap of all ranges, if there are any. -/
def range? (reference : Reference) : Option Range :=
  match reference.ranges with
  | [] => none
  | ranges => some (ranges.foldl Range.intersect .unbounded)

def parameters? : Reference → Option Parameters
  | keyword _ => none
  | typed name ranges => (typed name ranges).range?.map .range
  | function _ arguments => some (.arguments arguments)

/-- A reference with further ranges behind its own. Only typed references take them. -/
def narrowedBy (reference : Reference) (extra : List Range) : Reference :=
  match reference with
  | typed name ranges => typed name (ranges ++ extra)
  | other => other

def text : Reference → String
  | keyword name => name
  | typed name ranges => "<" ++ name ++ String.join (ranges.map fun r => " " ++ r.text) ++ ">"
  | function name arguments => name ++ "(" ++ arguments ++ ")"

/-- The names of typed references are made of all characters but blanks, `[` and `>`. -/
def isNameChar (c : Char) : Bool :=
  !isBlank c && c != '[' && c != '>'

/-- The ranges at the start of a text; blanks may stand before each of them. -/
def readRanges (cs : List Char) : List Range × List Char :=
  match _found : Range.read? (Range.skip cs) with
  | none => ([], cs)
  | some (range, rest) =>
    let more := readRanges rest
    (range :: more.1, more.2)
termination_by cs.length
decreasing_by exact Nat.lt_of_lt_of_le (Range.read?_shorter _found) (Range.length_skip_le cs)

def readTyped? (cs : List Char) : Option (Reference × List Char) :=
  match cs with
  | '<' :: rest =>
    let rest := Range.skip rest
    match rest.takeWhile isNameChar with
    | [] => none
    | name =>
      let ranges := readRanges (rest.dropWhile isNameChar)
      match Range.skip ranges.2 with
      | '>' :: rest => some (typed (String.ofList name) ranges.1, rest)
      | _ => none
  | _ => none

/-- The function reference that a call is. Its arguments stand without blanks around them. -/
def ofCall (call : Call) : Reference :=
  function (String.ofList call.name) (String.ofList (trimChars call.arguments))

def read? (cs : List Char) : Option (Reference × List Char) :=
  match readTyped? cs with
  | some read => some read
  | none =>
    match call? cs with
    | some (call, rest) => some (ofCall call, rest)
    | none => (identifier? cs).map fun read => (keyword (String.ofList read.1), read.2)

/-- The reference that a text is, apart from blanks around it. -/
def parse (raw : String) : Except Error Reference :=
  match read? (trimChars raw.toList) with
  | some (reference, []) => .ok reference
  | _ => .error (.malformed (.invalidReference (trim raw)))

def keyOf (raw : String) : Except Error String :=
  (parse raw).map key

end Reference

end ValueGrammar
