import TypeInference.Report.Style
import TypeInference.SourceText

/-!
# Labels on the lines of a source

A label that lies within the source becomes a `Mark`, which knows the line that it ends on. Marks on
the same or a later line than the one before them are drawn together, in one `Section`. A `Row` is a
source line with the `Point`s at which its marks are drawn.

Of the marks over several lines, the one that starts or ends first on a line is drawn in the margin
alone (the *margin point* of the line); the others reach the margin by a stroke under the line.
-/

namespace TypeInference

namespace Report

/-! ## Marks and points -/

/-- A label that lies within the source. -/
structure Mark where
  /-- Its place among the labels of its section. -/
  index : Nat
  label : Label
  /-- The line on which it ends. -/
  line : Nat
  /-- Whether it begins on an earlier line. -/
  isMulti : Bool
  deriving DecidableEq, Repr

namespace Mark

def start (m : Mark) : Nat := m.label.start

def stop (m : Mark) : Nat := m.label.stop

/-- The position of its last character, or of its start if it is empty. -/
def last (m : Mark) : Nat := max (m.stop - 1) m.start

def length (m : Mark) : Nat := m.stop - m.start

def style (m : Mark) : Option Style := some (.label m.label.color)

def holds (m : Mark) (pos : Nat) : Bool := m.start ≤ pos && pos < m.stop

end Mark

/-- A place on a line where something is drawn for a label. -/
structure Point where
  column : Nat
  mark : Mark
  /-- Whether the message is written here. -/
  hasMessage : Bool
  deriving DecidableEq, Repr

/-- Points from left to right; of those in one column the later start comes first. -/
def Point.le (p q : Point) : Bool :=
  p.column < q.column || (p.column == q.column && q.mark.start ≤ p.mark.start)

/-- The first of the points from left to right. -/
def Point.first? (ps : List Point) : Option Point :=
  ps.foldl (fun best p =>
    match best with
    | some b => if b.le p then some b else some p
    | none => some p) none

/-- The first of the shortest labels. -/
def shortest? (ms : List Mark) : Option Mark :=
  ms.foldl (fun best m =>
    match best with
    | some b => if b.length ≤ m.length then some b else some m
    | none => some m) none

/-- Labels drawn together, with the part of the source that they cover. -/
structure Section where
  start : Nat
  stop : Nat
  marks : List Mark
  deriving Repr

/-- The mark of a label with the given place, if the label lies within the source. -/
def mark? (S : SourceText) (index : Nat) (l : Label) : Option Mark := do
  let first ← S.lineAt? l.start
  let last ← if l.stop ≤ l.start then some first else S.lineAt? (l.stop - 1)
  return ⟨index, l, last, first != last⟩

/-- Add a mark to the last section if it ends on no earlier line than that section's last mark, or
else open a section. Sections and their marks are listed last first. -/
def addMark (sections : List Section) (m : Mark) : List Section :=
  match sections with
  | s :: rest =>
    match s.marks with
    | n :: _ =>
      if n.line ≤ m.line then
        ⟨min s.start m.start, max s.stop m.stop, m :: s.marks⟩ :: rest
      else ⟨m.start, m.stop, [m]⟩ :: sections
    | [] => ⟨m.start, m.stop, [m]⟩ :: sections
  | [] => [⟨m.start, m.stop, [m]⟩]

/-- The sections of a list of labels, each with its marks in order. -/
def sections (S : SourceText) (labels : List Label) : List Section :=
  let marks := labels.zipIdx.filterMap fun (l, i) => mark? S i l
  ((marks.foldl addMark []).map fun s => { s with marks := s.marks.reverse }).reverse

/-- The lines of a section: the first, and the one after the last. -/
def Section.lines (s : Section) (S : SourceText) : Nat × Nat :=
  let first := (S.lineAt? s.start).getD 0
  let stop := match S.lineAt? (max (s.stop - 1) s.start) with
    | some b => b + 1
    | none => S.lines.size
  (first, stop)

/-! ## Rows -/

/-- What all lines of a section share. -/
structure Sheet where
  colored : Bool
  /-- The width of the line numbers. -/
  width : Nat
  marks : List Mark
  /-- The labels over several lines, the longest first; each has its column in the margin. -/
  multis : List Mark
  deriving Repr

/-- A source line with the points drawn for it. -/
structure Row where
  index : Nat
  line : SourceLine
  /-- The points drawn under the line, from left to right. -/
  points : List Point
  /-- The point drawn in the margin. -/
  marginPoint : Option Point
  deriving Repr

namespace Row

/-- Where a label over several lines starts or ends on a line. -/
def endPoint? (line : SourceLine) (m : Mark) : Option Point :=
  if line.holds m.start then some ⟨m.start - line.offset, m, false⟩
  else if line.holds m.last then some ⟨m.last - line.offset, m, true⟩
  else none

/-- The middle of a label that lies within a line. -/
def innerPoint? (line : SourceLine) (m : Mark) : Option Point :=
  if !m.isMulti && line.offset ≤ m.start && m.stop ≤ line.stop then
    some ⟨max ((m.start + m.stop) / 2) m.start - line.offset, m, true⟩
  else none

/-- A line of a sheet. The point in the margin is drawn under the line too if a message stands
there. -/
def ofLine (Z : Sheet) (index : Nat) (line : SourceLine) : Row :=
  let ends := Z.multis.filterMap (endPoint? line)
  let marginPoint := Point.first? ends
  let below := ends.filter fun p => p.hasMessage || some p ≠ marginPoint
  ⟨index, line, (below ++ Z.marks.filterMap (innerPoint? line)).mergeSort Point.le, marginPoint⟩

/-- Whether the point in the margin belongs to a mark. -/
def isInMargin (R : Row) (m : Mark) : Bool := R.marginPoint.any fun p => p.mark == m

/-- The first point from place `row` on that has a stroke in a column. -/
def stroke? (R : Row) (row column : Nat) : Option Point :=
  (R.points.drop row).find? fun p => p.column == column && !R.isInMargin p.mark

end Row

end Report

end TypeInference
