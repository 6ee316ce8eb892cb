/-
QueryGrammar/StyledText.lean

Text for a terminal, in colour or plain.

A piece of text is painted by surrounding it with escape sequences: the codes of its style before
it and a reset behind it.  Padding belongs to the piece.  Where a piece itself holds a reset, its
style is turned on again behind that reset.
-/

namespace QueryGrammar

/-- A colour of the foreground. -/
inductive Color where
  | red
  | green
  | yellow
  | cyan
  | white
  deriving DecidableEq

/-- The code of a colour. -/
def Color.code : Color → String
  | .red => "31"
  | .green => "32"
  | .yellow => "33"
  | .cyan => "36"
  | .white => "37"

/-- A style: bold, dimmed, coloured. -/
structure Style where
  bold : Bool := false
  dimmed : Bool := false
  color : Option Color := none
  deriving DecidableEq

namespace Style

/-- The codes of a style in their order. -/
def codes (style : Style) : List String :=
  (if style.bold then ["1"] else []) ++ (if style.dimmed then ["2"] else []) ++
    style.color.toList.map Color.code

/-- The escape sequence of some codes. -/
def sequence (codes : List String) : String := "\x1b[" ++ ";".intercalate codes ++ "m"

/-- The sequence that ends a style. -/
def reset : String := sequence ["0"]

/-- A piece of text in a style, plain unless colours are wanted. -/
def paint (style : Style) (colors : Bool) (text : String) : String :=
  if colors then
    let start := sequence style.codes
    start ++ text.replace reset (reset ++ start) ++ reset
  else text

/-- Dimmed text. -/
def faint : Style := { dimmed := true }

/-- Coloured text. -/
def colored (color : Color) : Style := { color := some color }

/-- Bold coloured text. -/
def strong (color : Color) : Style := { bold := true, color := some color }

end Style

/-- A text filled up with blanks on its right. -/
def padRight (width : Nat) (text : String) : String :=
  text ++ String.ofList (List.replicate (width - text.length) ' ')

/-- A text filled up with blanks on its left. -/
def padLeft (width : Nat) (text : String) : String :=
  String.ofList (List.replicate (width - text.length) ' ') ++ text

end QueryGrammar
