import TypeInference.Report.Basic

/-!
# Colours of a report

Each piece of a report has a style. With colours on, a piece is wrapped in the terminal's codes of
its style.
-/

namespace TypeInference

/-- How a piece of a report is coloured. -/
inductive Style where
  | label (color : LabelColor)
  | margin
  | skip
  | plain
  | note
  deriving DecidableEq, Repr

namespace Style

/-- The terminal's code of a style. -/
def code : Style → String
  | .label .red => "31"
  | .label .blue => "34"
  | .margin => "38;5;246"
  | .skip => "38;5;240"
  | .plain => "38;5;249"
  | .note => "38;5;115"

/-- A text in a style, if colours are on; an empty text is left alone. -/
def paint (colored : Bool) (style : Style) (text : String) : String :=
  if colored && text ≠ "" then "\x1b[" ++ style.code ++ "m" ++ text ++ "\x1b[0m" else text

end Style

end TypeInference
