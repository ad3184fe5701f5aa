import ValueGrammar.Registry.Basic

/-!
The built-in catalog: the data types that style grammars are written with, the units of lengths
and the names of colors.
-/
namespace ValueGrammar

namespace Catalog

/-- Primitive and composed symbols with their default literals. -/
def definitions : List Definition := [
  ⟨"<length>", "<length>", some "0px"⟩,
  ⟨"<percentage>", "<percentage>", some "0%"⟩,
  ⟨"<length-percentage>", "<length> | <percentage>", some "0px"⟩,
  ⟨"<number>", "<number>", some "0"⟩,
  ⟨"<integer>", "<integer>", some "0"⟩,
  ⟨"<ratio>", "<number [0,∞]> [ / <number [0,∞]> ]?", some "1"⟩,
  ⟨"<alpha-value>", "<number [0,1]> | <percentage [0,100]>", some "1"⟩,
  ⟨"<color>", "<color>", some "#ffffff"⟩,
  ⟨"<url>", "<url>", some "url(\"\")"⟩,
  ⟨"<string>", "<string>", some "\"\""⟩,
  ⟨"<family-name>", "<string>", some "\"\""⟩,
  ⟨"<generic-family>", "serif | sans-serif | monospace | cursive | fantasy | system-ui",
    some "sans-serif"⟩,
  ⟨"<line-width>", "<length [0,∞]> | thin | medium | thick", some "medium"⟩,
  ⟨"<line-style>",
    "none | hidden | dotted | dashed | solid | double | groove | ridge | inset | outset",
    some "none"⟩,
  ⟨"<image>", "<url> | <gradient>", none⟩,
  ⟨"<gradient>", "linear-gradient() | radial-gradient()", none⟩,
  ⟨"fit-content()", "fit-content(<length-percentage [0,∞]>)", some "fit-content(0px)"⟩,
  ⟨"minmax()", "minmax(<length-percentage>, <length-percentage>)", some "minmax(0px, 0px)"⟩,
  ⟨"linear-gradient()", "linear-gradient(<color>, <color>)",
    some "linear-gradient(#ffffff, #000000)"⟩,
  ⟨"radial-gradient()", "radial-gradient(<color>, <color>)",
    some "radial-gradient(#ffffff, #000000)"⟩]

def lengthUnits : List String := [
  "ch", "cm", "cqb", "cqh", "cqi", "cqmax", "cqmin", "cqw", "dvh", "dvw", "em", "ex", "in", "lh",
  "lvh", "lvw", "mm", "pc", "pt", "px", "q", "rem", "rlh", "svh", "svw", "vh", "vmax", "vmin",
  "vw"]

/-- The named colors and the color keywords. -/
def namedColors : List String := [
  "aliceblue", "antiquewhite", "aqua", "aquamarine", "azure", "beige", "bisque", "black",
  "blanchedalmond", "blue", "blueviolet", "brown", "burlywood", "cadetblue", "chartreuse",
  "chocolate", "coral", "cornflowerblue", "cornsilk", "crimson", "currentcolor", "cyan",
  "darkblue", "darkcyan", "darkgoldenrod", "darkgray", "darkgreen", "darkgrey", "darkkhaki",
  "darkmagenta", "darkolivegreen", "darkorange", "darkorchid", "darkred", "darksalmon",
  "darkseagreen", "darkslateblue", "darkslategray", "darkslategrey", "darkturquoise",
  "darkviolet", "deeppink", "deepskyblue", "dimgray", "dimgrey", "dodgerblue", "firebrick",
  "floralwhite", "forestgreen", "fuchsia", "gainsboro", "ghostwhite", "gold", "goldenrod", "gray",
  "green", "greenyellow", "grey", "honeydew", "hotpink", "indianred", "indigo", "ivory", "khaki",
  "lavender", "lavenderblush", "lawngreen", "lemonchiffon", "lightblue", "lightcoral",
  "lightcyan", "lightgoldenrodyellow", "lightgray", "lightgreen", "lightgrey", "lightpink",
  "lightsalmon", "lightseagreen", "lightskyblue", "lightslategray", "lightslategrey",
  "lightsteelblue", "lightyellow", "lime", "limegreen", "linen", "magenta", "maroon",
  "mediumaquamarine", "mediumblue", "mediumorchid", "mediumpurple", "mediumseagreen",
  "mediumslateblue", "mediumspringgreen", "mediumturquoise", "mediumvioletred", "midnightblue",
  "mintcream", "mistyrose", "moccasin", "navajowhite", "navy", "oldlace", "olive", "olivedrab",
  "orange", "orangered", "orchid", "palegoldenrod", "palegreen", "paleturquoise", "palevioletred",
  "papayawhip", "peachpuff", "peru", "pink", "plum", "powderblue", "purple", "rebeccapurple",
  "red", "rosybrown", "royalblue", "saddlebrown", "salmon", "sandybrown", "seagreen", "seashell",
  "sienna", "silver", "skyblue", "slateblue", "slategray", "slategrey", "snow", "springgreen",
  "steelblue", "tan", "teal", "thistle", "tomato", "transparent", "turquoise", "violet", "wheat",
  "white", "whitesmoke", "yellow", "yellowgreen"]

end Catalog

def Registry.builtin : Registry :=
  ⟨Catalog.definitions, by decide +kernel⟩

end ValueGrammar
