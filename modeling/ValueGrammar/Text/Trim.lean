import ValueGrammar.Unicode.Blank

/-!
Trimming of blank characters. Texts keep their type `String`; the character lists are what the
readers work on.
-/
namespace ValueGrammar.Text

open Unicode

def dropBlanks (cs : List Char) : List Char :=
  cs.dropWhile isBlank

/-- The characters between the first and the last one that is not blank. -/
def trimChars (cs : List Char) : List Char :=
  (dropBlanks (dropBlanks cs).reverse).reverse

def trim (text : String) : String :=
  String.ofList (trimChars text.toList)

theorem length_dropBlanks_le (cs : List Char) : (dropBlanks cs).length ≤ cs.length :=
  (List.dropWhile_suffix isBlank).length_le

end ValueGrammar.Text
