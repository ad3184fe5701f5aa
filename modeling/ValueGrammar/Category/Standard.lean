import ValueGrammar.Category.Basic
import ValueGrammar.Registry.Catalog
import ValueGrammar.Unicode.Lowercase

/-!
The standard categories, from the most to the least specific: functions, links, colors, integers,
numbers, lengths, keywords and composed tokens. Each recogniser of fragments is a predicate of
its own.
-/
namespace ValueGrammar

namespace Fragment

open Text

def leadingNumber? (fragment : String) : Option Number :=
  (Number.read? fragment.toList).map (·.1)

/-- An integer: digits that a minus sign may precede. -/
def isInteger (fragment : String) : Bool :=
  let digits :=
    match fragment.toList with
    | '-' :: digits => digits
    | digits => digits
  !digits.isEmpty && digits.all Char.isDigit

/-- A number and nothing behind it. -/
def isNumber (fragment : String) : Bool :=
  match Number.read? fragment.toList with
  | some (_, []) => true
  | _ => false

def isKeywordChar (c : Char) : Bool :=
  c.isLower || c.isDigit || c == '-'

/-- A keyword: a small ASCII letter, which a hyphen may precede, then small ASCII letters, digits
and hyphens. -/
def isKeyword (fragment : String) : Bool :=
  let body :=
    match fragment.toList with
    | '-' :: body => body
    | body => body
  match body with
  | first :: _ => first.isLower && body.all isKeywordChar
  | [] => false

/-- The name of the call that a fragment is as a whole. -/
def calledName? (fragment : String) : Option String :=
  match call? fragment.toList with
  | some (call, []) => some (String.ofList call.name)
  | _ => none

/-- Whether a text starts with one text and ends with another one, which may overlap. -/
def isBetween (front back text : List Char) : Bool :=
  front.isPrefixOf text && back.isSuffixOf text

/-- A string: two characters or more, with the same quote at both ends. -/
def isString (fragment : String) : Bool :=
  let cs := fragment.toList
  2 ≤ cs.length && (isBetween ['"'] ['"'] cs || isBetween ['\''] ['\''] cs)

/-- A link in the form `url(...)`, in any case. -/
def isUrl (fragment : String) : Bool :=
  isBetween "url(".toList [')'] (Unicode.lower fragment).toList

def isHexDigit (c : Char) : Bool :=
  c.isDigit || ('a' ≤ c && c ≤ 'f')

/-- A color: hexadecimal digits behind `#`, one of the four color functions, or a name, in any
case. -/
def isColor (fragment : String) : Bool :=
  let lower := Unicode.lower fragment
  match lower.toList with
  | '#' :: digits => [3, 4, 6, 8].contains digits.length && digits.all isHexDigit
  | cs =>
    if ["rgb(", "rgba(", "hsl(", "hsla("].any fun front => front.toList.isPrefixOf cs then
      [')'].isSuffixOf cs
    else Catalog.namedColors.contains lower

/-- The key of the dimension that a fragment is: zero or a number with a unit is a length, a
number with a percent sign is a percentage. -/
def dimension? (fragment : String) : Option String :=
  match Number.read? fragment.toList with
  | none => none
  | some (x, []) => if x.isZero then some "<length>" else none
  | some (_, ['%']) => some "<percentage>"
  | some (_, unit) =>
    if unit.all Char.isAlpha && Catalog.lengthUnits.contains (String.ofList (unit.map Char.toLower))
    then some "<length>"
    else none

end Fragment

namespace Category

open Fragment

/-- The key alone if a test holds. -/
def only (key : String) (holds : Bool) : List String :=
  if holds then [key] else []

/-- Whether a call with a key is a registered primitive. -/
def ownsFunction (registry : Registry) (key : String) : Bool :=
  "()".toList.isSuffixOf key.toList &&
    match registry.find? key with
    | some definition => definition.isPrimitive
    | none => false

/-- Registered functions. A call belongs to them whatever the case of its name. -/
def function : Category where
  key := "function"
  priority := 50
  owns := ownsFunction
  classify registry fragment :=
    match calledName? fragment with
    | some name =>
      let key := Unicode.lower name ++ "()"
      only key (ownsFunction registry key)
    | none => []
  magnitude? _ := none
  offer := defaultOffer "function"

/-- Strings and links. -/
def link : Category where
  key := "link"
  priority := 60
  owns _ key := key == "<url>" || key == "<string>"
  classify _ fragment :=
    if isString fragment then ["<string>"] else only "<url>" (isUrl fragment)
  magnitude? _ := none
  offer := defaultOffer "link"

def color : Category where
  key := "color"
  priority := 40
  owns _ key := key == "<color>"
  classify _ fragment := only "<color>" (isColor fragment)
  magnitude? _ := none
  offer := defaultOffer "color"

def integer : Category where
  key := "integer"
  priority := 30
  owns _ key := key == "<integer>"
  classify _ fragment := only "<integer>" (isInteger fragment)
  magnitude? := leadingNumber?
  offer := defaultOffer "integer"

/-- Numbers; integers are among them. -/
def number : Category where
  key := "number"
  priority := 20
  owns _ key := key == "<number>"
  classify _ fragment := only "<number>" (isNumber fragment)
  magnitude? := leadingNumber?
  offer := defaultOffer "number"

def length : Category where
  key := "length"
  priority := 10
  owns _ key := key == "<length>" || key == "<percentage>"
  classify _ fragment := (dimension? fragment).toList
  magnitude? := leadingNumber?
  offer := defaultOffer "length"

/-- Keywords. A menu offers each of them as itself. -/
def keyword : Category where
  key := "keyword"
  priority := 70
  owns _ key :=
    match Reference.parse key with
    | .ok reference => reference.isKeyword
    | .error _ => false
  classify _ fragment := only fragment (isKeyword fragment)
  magnitude? _ := none
  offer _ key := ⟨key, key, "keyword", .keyword⟩

/-- Composed tokens. They are replaced before values are matched, so no fragment is one. -/
def composed : Category where
  key := "composed"
  priority := 100
  owns registry key :=
    match registry.find? key with
    | some definition => !definition.isPrimitive
    | none => false
  classify _ _ := []
  magnitude? _ := none
  offer := defaultOffer "composed"

def standard : List Category :=
  [function, link, color, integer, number, length, keyword, composed]

end Category

end ValueGrammar
