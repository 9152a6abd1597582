/-
# Keyword tables

The keywords that complete a style value: those of single properties, the names
of colors, and those that every property takes.
-/

namespace StyleSense.Completion

/-- Keywords of every property. -/
def globalKeywords : List String :=
  ["inherit", "initial", "revert", "revert-layer", "unset"]

/-- Keywords of single properties. -/
def propertyKeywords : List (String × List String) :=
  [("align-content", ["center", "flex-end", "flex-start", "normal", "space-around", "space-between",
      "space-evenly", "stretch"]),
    ("align-items", ["baseline", "center", "flex-end", "flex-start", "normal", "stretch"]),
    ("align-self", ["auto", "baseline", "center", "flex-end", "flex-start", "normal", "stretch"]),
    ("animation-direction", ["alternate", "alternate-reverse", "normal", "reverse"]),
    ("animation-fill-mode", ["backwards", "both", "forwards", "none"]),
    ("animation-timing-function", ["ease", "ease-in", "ease-in-out", "ease-out", "linear", "step-end",
      "step-start"]),
    ("border-style", ["dashed", "dotted", "double", "groove", "hidden", "inset", "none", "outset",
      "ridge", "solid"]),
    ("box-sizing", ["border-box", "content-box"]),
    ("clear", ["both", "left", "none", "right"]),
    ("cursor", ["auto", "default", "grab", "help", "move", "not-allowed", "pointer", "text", "wait"]),
    ("display", ["block", "contents", "flex", "grid", "inline", "inline-block", "inline-flex",
      "inline-grid", "none", "table"]),
    ("flex-direction", ["column", "column-reverse", "row", "row-reverse"]),
    ("flex-wrap", ["nowrap", "wrap", "wrap-reverse"]),
    ("float", ["left", "none", "right"]),
    ("font-style", ["italic", "normal", "oblique"]),
    ("font-weight", ["bold", "bolder", "lighter", "normal"]),
    ("justify-content", ["center", "flex-end", "flex-start", "space-around", "space-between",
      "space-evenly", "stretch"]),
    ("object-fit", ["contain", "cover", "fill", "none", "scale-down"]),
    ("overflow", ["auto", "clip", "hidden", "scroll", "visible"]),
    ("pointer-events", ["auto", "none"]),
    ("position", ["absolute", "fixed", "relative", "static", "sticky"]),
    ("text-align", ["center", "end", "justify", "left", "right", "start"]),
    ("text-transform", ["capitalize", "lowercase", "none", "uppercase"]),
    ("transition-timing-function", ["ease", "ease-in", "ease-in-out", "ease-out", "linear",
      "step-end", "step-start"]),
    ("user-select", ["all", "auto", "none", "text"]),
    ("vertical-align", ["baseline", "bottom", "middle", "sub", "super", "text-bottom", "text-top",
      "top"]),
    ("visibility", ["collapse", "hidden", "visible"]),
    ("white-space", ["break-spaces", "normal", "nowrap", "pre", "pre-line", "pre-wrap"]),
    ("word-break", ["break-all", "keep-all", "normal"])]

/-- Properties that take a color. -/
def colorProperties : List String :=
  ["accent-color", "background", "background-color", "border-bottom-color", "border-color",
    "border-left-color", "border-right-color", "border-top-color", "caret-color", "color",
    "column-rule-color", "fill", "outline-color", "stroke", "text-decoration-color"]

/-- Names of colors. -/
def colorKeywords : List String :=
  ["aliceblue", "antiquewhite", "aqua", "aquamarine", "azure", "beige", "bisque", "black",
    "blanchedalmond", "blue", "blueviolet", "brown", "burlywood", "cadetblue", "chartreuse",
    "chocolate", "coral", "cornflowerblue", "cornsilk", "crimson", "currentcolor", "cyan",
    "darkblue", "darkcyan", "darkgoldenrod", "darkgray", "darkgreen", "darkkhaki", "darkmagenta",
    "darkolivegreen", "darkorange", "darkorchid", "darkred", "darksalmon", "darkseagreen",
    "darkslateblue", "darkslategray", "darkturquoise", "darkviolet", "deeppink", "deepskyblue",
    "dimgray", "dodgerblue", "firebrick", "floralwhite", "forestgreen", "fuchsia", "gainsboro",
    "ghostwhite", "gold", "goldenrod", "gray", "green", "greenyellow", "honeydew", "hotpink",
    "indianred", "indigo", "ivory", "khaki", "lavender", "lavenderblush", "lawngreen",
    "lemonchiffon", "lightblue", "lightcoral", "lightcyan", "lightgoldenrodyellow", "lightgray",
    "lightgreen", "lightpink", "lightsalmon", "lightseagreen", "lightskyblue", "lightslategray",
    "lightsteelblue", "lightyellow", "lime", "limegreen", "linen", "magenta", "maroon",
    "mediumaquamarine", "mediumblue", "mediumorchid", "mediumpurple", "mediumseagreen",
    "mediumslateblue", "mediumspringgreen", "mediumturquoise", "mediumvioletred", "midnightblue",
    "mintcream", "mistyrose", "moccasin", "navajowhite", "navy", "oldlace", "olive", "olivedrab",
    "orange", "orangered", "orchid", "palegoldenrod", "palegreen", "paleturquoise",
    "palevioletred", "papayawhip", "peachpuff", "peru", "pink", "plum", "powderblue", "purple",
    "rebeccapurple", "red", "rosybrown", "royalblue", "saddlebrown", "salmon", "sandybrown",
    "seagreen", "seashell", "sienna", "silver", "skyblue", "slateblue", "slategray", "snow",
    "springgreen", "steelblue", "tan", "teal", "thistle", "tomato", "transparent", "turquoise",
    "violet", "wheat", "white", "whitesmoke", "yellow", "yellowgreen"]

end StyleSense.Completion
