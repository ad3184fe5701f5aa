import ValueGrammar.Lexeme.Basic

/-!
What can go wrong. Each error is a cause with the data that its message shows; the wording is in
`Error.message` and `Malformation.message` alone.
-/
namespace ValueGrammar

/-- Why a text is no grammar. -/
inductive Malformation where
  /-- No lexeme starts where the rest of the grammar begins. -/
  | unexpectedInput (rest grammar : String)
  | invalidReference (text : String)
  /-- An operand of a combinator is missing. -/
  | dangling (delimiter : Lexeme) (items : List Lexeme)
  /-- The brackets do not pair up. -/
  | unbalanced (items : List Lexeme)
  /-- A lexeme stands where an operand has to. -/
  | unexpected (item : Lexeme) (items : List Lexeme)
  deriving DecidableEq, Repr

def Malformation.message : Malformation → String
  | unexpectedInput rest grammar => s!"unexpected input `{rest}` in `{grammar}`"
  | invalidReference text => s!"invalid token reference `{text}`"
  | dangling delimiter items =>
    "dangling `" ++ delimiter.text ++ "` in `" ++ Lexeme.render items ++ "`"
  | unbalanced items => "unbalanced brackets in `" ++ Lexeme.render items ++ "`"
  | unexpected item items => "unexpected `" ++ item.text ++ "` in `" ++ Lexeme.render items ++ "`"

/-- Why a grammar, a value or a context is refused. -/
inductive Error where
  /-- A grammar names tokens that have no definition. -/
  | unknownTokens (keys : List String)
  /-- A definition leads back to itself. The chain lists the definitions opened, outermost
  first, and ends with the repeated one. -/
  | cyclicDefinition (key : String) (chain : List String)
  | unclassifiable (fragment : String)
  /-- No variant accepts a value, not even as its beginning. -/
  | noMatchingVariant (value : String)
  | malformed (cause : Malformation)
  | tooManyOperands (operands limit : Nat)
  /-- An edit names a slot past the end of the value. -/
  | slotOutOfRange (slot length : Nat)
  /-- A missing fragment has no default to be filled with. -/
  | missingDefault (key : String)
  | duplicateToken (key : String)
  /-- No category owns a primitive token. -/
  | unownedToken (key : String)
  deriving DecidableEq, Repr

def Error.message : Error → String
  | unknownTokens keys => "Unknown token: " ++ ", ".intercalate keys
  | cyclicDefinition key chain =>
    s!"Cyclic token definition for {key}: " ++ " -> ".intercalate chain
  | unclassifiable fragment => s!"Unclassifiable value: {fragment}"
  | noMatchingVariant value => s!"No variant of the grammar matches value: {value}"
  | malformed cause => "Grammar syntax error: " ++ cause.message
  | tooManyOperands operands limit =>
    s!"Combinator group has {operands} operands, limit is {limit}"
  | slotOutOfRange slot length =>
    s!"Slot {slot} is out of range for a value with {length} fragments"
  | missingDefault key => s!"No default value registered for token {key}"
  | duplicateToken key => s!"Token {key} is already registered"
  | unownedToken key => s!"No token type owns token {key}"

end ValueGrammar
