import TypeInference.Report.Section

/-!
# The margin of a report

Each mark over several lines has a column in the margin, in which a bar runs from its first line to
its last. `Column.add` says what one mark draws into one column on one strip of a row, and
`Column.glyphs` which characters show it: a turn covers a horizontal bar, and that covers a vertical
one.
-/

namespace TypeInference

namespace Report

/-- Which of the lines of text that belong to a source line is drawn. -/
inductive Strip where
  /-- The source line itself. -/
  | source
  /-- A line under it for the point at a place: the second one leads to the point's message. -/
  | below (place : Nat) (isArrow : Bool)
  deriving DecidableEq, Repr

/-- What runs through one column of the margin. -/
structure Column where
  /-- A label's turn into the margin, and whether the label starts on this line. -/
  corner : Option (Mark × Bool)
  horizontal : Option Mark
  vertical : Option Mark
  /-- The label of the margin point, and whether it starts on this line. -/
  pointer : Option (Mark × Bool)

namespace Column

def empty : Column := ⟨none, none, none, none⟩

/-- Add what the label `m`, whose own column is `home`, draws into a column. -/
def add (R : Row) (strip : Strip) (column : Nat) (C : Column) (m : Mark) (home : Nat) : Column :=
  if R.line.stop < m.start || m.stop ≤ R.line.offset then C
  else
    let mine := R.isInMargin m
    let starts := R.line.holds m.start
    let own := if home = column then some m else none
    match strip with
    | .source =>
      if mine then { C with pointer := some (m, starts) }
      else if starts then C
      else { C with vertical := C.vertical.or own }
    | .below k isArrow =>
      let place := (R.points.findIdx? fun p => p.mark == m).getD 0
      if !starts && !R.line.holds m.last then { C with vertical := C.vertical.or own }
      else if k ≠ place then
        { C with vertical := C.vertical.or (if starts != decide (k < place) then own else none) }
      else
        let C := if mine then { C with vertical := own } else C
        if isArrow then
          if mine && starts then C
          else
            { C with
              horizontal := some m
              corner := if home = column then some (m, starts) else C.corner }
        else if starts then C
        else { C with vertical := C.vertical.or own }

/-- The two characters of a column, each with its style. -/
def glyphs (Z : Sheet) (R : Row) (strip : Strip) (ellipsis : Bool) (column : Nat) (C : Column) :
    (String × Option Style) × (String × Option Style) :=
  let own := Z.multis[column]?
  let lead := (C.pointer.map Prod.fst).filter fun m =>
    own ≠ some m && column + 1 ≠ Z.multis.length
  let horizontal := (C.horizontal.or lead).filter fun m => !(strip == .source && R.isInMargin m)
  match C.corner, horizontal, C.vertical, C.pointer with
  | some (m, starts), _, _, _ => ((if starts then "╭" else "╰", m.style), ("─", m.style))
  | none, some m, _, _ => (("─", m.style), ("─", m.style))
  | none, none, some m, _ => ((if ellipsis then "┆" else "│", m.style), (" ", none))
  | none, none, none, some (m, starts) =>
    if column = Z.multis.length then (("▶", m.style), (" ", m.style))
    else if own = some m then ((if starts then "╭" else "├", m.style), ("─", m.style))
    else (("─", m.style), ("─", m.style))
  | none, none, none, none => ((" ", none), (" ", none))

end Column

end Report

end TypeInference
