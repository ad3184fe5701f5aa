/-!
The style properties and the grammars of their values.
-/
namespace ValueGrammar

structure Property where
  name : String
  description : String
  grammar : String
  deriving DecidableEq, Repr

namespace Property

def sizeGrammar : String :=
  "auto | <length-percentage [0,∞]> | min-content | max-content | " ++
    "fit-content(<length-percentage [0,∞]>)"

def maxSizeGrammar : String :=
  "none | <length-percentage [0,∞]> | min-content | max-content | " ++
    "fit-content(<length-percentage [0,∞]>)"

def insetGrammar : String := "auto | <length-percentage>"

def flexFactorGrammar : String := "<number [0,∞]>"

def all : List Property := [
  ⟨"width", "Width of the element's content box", sizeGrammar⟩,
  ⟨"height", "Height of the element's content box", sizeGrammar⟩,
  ⟨"min-width", "Smallest width the element may shrink to", sizeGrammar⟩,
  ⟨"min-height", "Smallest height the element may shrink to", sizeGrammar⟩,
  ⟨"max-width", "Largest width the element may grow to", maxSizeGrammar⟩,
  ⟨"max-height", "Largest height the element may grow to", maxSizeGrammar⟩,
  ⟨"aspect-ratio", "Preferred width to height ratio", "auto || <ratio>"⟩,
  ⟨"margin", "Outer spacing, one to four sides", "[ <length-percentage> | auto ]{1,4}"⟩,
  ⟨"padding", "Inner spacing, one to four sides", "<length-percentage [0,∞]>{1,4}"⟩,
  ⟨"gap", "Row and column gutters", "<length-percentage [0,∞]>{1,2}"⟩,
  ⟨"display", "Box type generated by the element",
    "block | inline | inline-block | flex | inline-flex | grid | inline-grid | contents | none"⟩,
  ⟨"position", "Positioning scheme", "static | relative | absolute | fixed | sticky"⟩,
  ⟨"top", "Offset from the containing block's top edge", insetGrammar⟩,
  ⟨"right", "Offset from the containing block's right edge", insetGrammar⟩,
  ⟨"bottom", "Offset from the containing block's bottom edge", insetGrammar⟩,
  ⟨"left", "Offset from the containing block's left edge", insetGrammar⟩,
  ⟨"z-index", "Stacking order", "auto | <integer>"⟩,
  ⟨"flex-grow", "Share of free space to grow into", flexFactorGrammar⟩,
  ⟨"flex-shrink", "Share of overflow to shrink by", flexFactorGrammar⟩,
  ⟨"flex-basis", "Initial main size of a flex item", "auto | content | <length-percentage [0,∞]>"⟩,
  ⟨"opacity", "Transparency of the element", "<alpha-value>"⟩,
  ⟨"color", "Foreground text color", "<color>"⟩,
  ⟨"background-color", "Background fill color", "<color>"⟩,
  ⟨"background-image", "Background image layers", "none | <image>#"⟩,
  ⟨"border", "Width, style and color of all four borders",
    "<line-width> || <line-style> || <color>"⟩,
  ⟨"border-width", "Border width, one to four sides", "<line-width>{1,4}"⟩,
  ⟨"font-family", "Prioritized list of font family names",
    "[ <family-name> | <generic-family> ]#"⟩,
  ⟨"font-size", "Size of the font",
    "<length-percentage [0,∞]> | xx-small | x-small | small | medium | large | x-large | " ++
    "xx-large | smaller | larger"⟩,
  ⟨"line-height", "Height of a line box", "normal | <number [0,∞]> | <length-percentage [0,∞]>"⟩]

/-- The properties in the order of their names. -/
def sorted : List Property :=
  all.mergeSort fun a b => decide (a.name ≤ b.name)

def find? (name : String) : Option Property :=
  all.find? (·.name == name)

end Property

end ValueGrammar
