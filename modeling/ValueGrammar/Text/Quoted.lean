import ValueGrammar.Unicode.Hidden

/-!
Quoted text for the journal. A quoted text stands between double quotes; the quote and the
backslash are escaped, four controls have a letter of their own, and every other hidden
character is shown by its code point.
-/
namespace ValueGrammar.Text

open Unicode

/-- The escape of one character by its code point, in hexadecimal digits. -/
def codePointEscape (c : Char) : String :=
  "\\u\x7b" ++ String.ofList (Nat.toDigits 16 c.toNat) ++ "\x7d"

def quotedChar (c : Char) : String :=
  if c = '\x00' then "\\0"
  else if c = '\t' then "\\t"
  else if c = '\r' then "\\r"
  else if c = '\n' then "\\n"
  else if c = '\\' then "\\\\"
  else if c = '"' then "\\\""
  else if isHidden c then codePointEscape c
  else c.toString

def quoted (text : String) : String :=
  "\"" ++ String.join (text.toList.map quotedChar) ++ "\""

/-- Several quoted texts between square brackets. -/
def quotedList (texts : List String) : String :=
  "[" ++ ", ".intercalate (texts.map quoted) ++ "]"

end ValueGrammar.Text
