import TypeInference.Report.CharWidth
import TypeInference.Report.Margin

/-!
# Drawing a report

`Report.render` draws the source lines that the labels of a report lie on, with the labels under
them. A report starts with its message. Each section names the primary position, shows its lines and
skips those without a label.

A label within one line is underlined and its message hangs on a stroke from the underline's middle.
A label over several lines has a bar in the margin from its first line to its last, where the
message stands.
-/

namespace TypeInference

namespace Report

/-! ## Lines of text -/

/-- As many blanks. -/
def blanks (n : Nat) : String := String.ofList (List.replicate n ' ')

namespace Sheet

def paint (Z : Sheet) (style : Option Style) (text : String) : String :=
  match style with
  | some s => s.paint Z.colored text
  | none => text

/-- The number of a source line, or blanks, up to the stroke that ends it. -/
def gutter (Z : Sheet) (R : Row) (strip : Strip) (ellipsis : Bool) : String :=
  if strip == .source && !ellipsis then
    let number := toString (R.index + 1)
    " " ++ Z.paint (some .margin) (blanks (Z.width - number.length) ++ number ++ " │") ++ " "
  else " " ++ Z.paint (some .skip) (blanks (Z.width + 1) ++ if ellipsis then "┆" else "│") ++ " "

/-- The columns of the labels over several lines. -/
def columns (Z : Sheet) (R : Row) (strip : Strip) (ellipsis : Bool) : String :=
  let count := if Z.multis.isEmpty then 0 else Z.multis.length + 1
  String.join <| (List.range count).map fun column =>
    let C := (Z.multis.take (column + 1)).zipIdx.foldl
      (fun C (m, home) => C.add R strip column m home) Column.empty
    let (a, b) := C.glyphs Z R strip ellipsis column
    Z.paint a.2 a.1 ++ Z.paint b.2 b.1

def margin (Z : Sheet) (R : Row) (strip : Strip) (ellipsis : Bool) : String :=
  Z.gutter R strip ellipsis ++ Z.columns R strip ellipsis

/-- The columns that a character of a line takes: a tab reaches to the next multiple of four. -/
def charWidth (c : Char) (column : Nat) : Nat :=
  if c = '\t' then (column / 4 + 1) * 4 - column else if isBlank c then 1 else columnWidth c

/-- The width of a line's character, one past the line's end. -/
def widthAt (R : Row) (column : Nat) : Nat :=
  match R.line.shown[column]? with
  | some c => charWidth c column
  | none => 1

/-- The characters of a source line in the colour of the shortest label around each. -/
def sourceText (Z : Sheet) (R : Row) : String :=
  let marks := (R.marginPoint.map Point.mark).toList ++ Z.multis ++ R.points.map Point.mark
  String.join <| R.line.shown.zipIdx.map fun (c, column) =>
    let style := match shortest? (marks.filter fun m => m.holds (R.line.offset + column)) with
      | some m => m.style
      | none => some .plain
    if isBlank c then String.join (List.replicate (charWidth c column) (Z.paint style " "))
    else Z.paint style (String.singleton c)

/-- The columns in which something may be drawn under a line. -/
def reach (R : Row) : Nat :=
  R.points.foldl (fun n p =>
    if p.mark.isMulti then R.line.length else max n (p.mark.stop - R.line.offset)) 0 + 2

/-- A character and how the rest of its width is filled. -/
def fill (Z : Sheet) (width : Nat) (first rest : String × Option Style) : String :=
  if width = 0 then ""
  else
    Z.paint first.2 first.1 ++
      String.join (List.replicate (width - 1) (Z.paint rest.2 rest.1))

/-- The upper line for a point: strokes down to the messages and, on the first line, underlines. -/
def strokes (Z : Sheet) (R : Row) (place : Nat) : String :=
  String.join <| (List.range (reach R)).map fun column =>
    let inner := (R.points.map Point.mark).filter fun m =>
      !m.isMulti && m.holds (R.line.offset + column)
    let under := if place = 0 then shortest? inner else none
    match R.stroke? place column, under with
    | some p, some _ => Z.fill (widthAt R column) ("┬", p.mark.style) ("─", p.mark.style)
    | some p, none =>
      let head := if p.mark.isMulti && place = 0 then "▲" else "│"
      Z.fill (widthAt R column) (head, p.mark.style) (" ", p.mark.style)
    | none, some m => Z.fill (widthAt R column) ("─", m.style) ("─", m.style)
    | none, none => Z.fill (widthAt R column) (" ", none) (" ", none)

/-- The lower line for a point: the way from its stroke to its message. -/
def arrow (Z : Sheet) (R : Row) (place : Nat) (p : Point) : String :=
  let style := p.mark.style
  let line := String.join <| (List.range (reach R)).map fun column =>
    let across := (decide (p.column < column) != p.mark.isMulti) ||
      (p.hasMessage && p.column < column)
    if column = p.column && !R.isInMargin p.mark then
      let head := if p.mark.isMulti then (if p.hasMessage then "┴" else "╯") else "╰"
      Z.fill (widthAt R column) (head, style) ("─", style)
    else if across then Z.fill (widthAt R column) ("─", style) ("─", style)
    else
      match R.stroke? place column with
      | some q => Z.fill (widthAt R column) ("│", q.mark.style) (" ", style)
      | none => Z.fill (widthAt R column) (" ", none) (" ", none)
  line ++ if p.hasMessage then " " ++ p.mark.label.message else ""

/-- A source line and the lines under it. -/
def drawRow (Z : Sheet) (R : Row) (ellipsis : Bool) : List String :=
  let text := if ellipsis then "" else Z.sourceText R
  (Z.margin R .source ellipsis ++ text) ::
    R.points.zipIdx.flatMap fun (p, place) =>
      [Z.margin R (.below place false) ellipsis ++ Z.strokes R place,
        Z.margin R (.below place true) ellipsis ++ Z.arrow R place p]

/-- The lines of a section. Of lines in a row with nothing to draw only the first leaves a trace:
a dotted margin inside a label, else an empty one. -/
def drawRows (Z : Sheet) (ellipsis : Bool) : List Row → List String
  | [] => []
  | R :: Rs =>
    if R.points.isEmpty && R.marginPoint.isNone then
      if ellipsis then Z.drawRows true Rs
      else if Z.multis.any fun m => m.holds R.line.offset then
        Z.drawRow R true ++ Z.drawRows true Rs
      else Z.gutter R (.below 0 false) false :: Z.drawRows true Rs
    else Z.drawRow R false ++ Z.drawRows false Rs

end Sheet

/-! ## Sections and reports -/

/-- Where a report points, as `line:column` counted from one. -/
def place (S : SourceText) (primary : Nat) : String :=
  match S.lineAt? primary with
  | some i =>
    toString (i + 1) ++ ":" ++ toString (primary - ((S.lines[i]?).getD default).offset + 1)
  | none => "?:?"

/-- The line that opens a section and the empty one under it. -/
def opening (Z : Sheet) (corner place : String) : List String :=
  [blanks (Z.width + 2) ++ Z.paint (some .margin) corner ++ Z.paint (some .margin) "─" ++
      Z.paint (some .margin) "[" ++ " " ++ place ++ " " ++ Z.paint (some .margin) "]",
    blanks (Z.width + 2) ++ Z.paint (some .margin) "│"]

/-- The lines of a text that line feeds end, each with a carriage return before it or without. What
follows the last one is a line too if there is something. -/
def textLines : List Char → List (List Char)
  | [] => []
  | '\n' :: cs => [] :: textLines cs
  | '\r' :: '\n' :: cs => [] :: textLines cs
  | c :: cs =>
    match textLines cs with
    | [] => [[c]]
    | line :: lines => (c :: line) :: lines

/-- The help after a section. The lines after its first are set in as far as its heading. -/
def advice (Z : Sheet) (margin help : String) : List String :=
  margin :: (textLines help.toList).zipIdx.map fun (line, i) =>
    margin ++ (if i = 0 then Z.paint (some .note) "Help" ++ ": " else blanks 6) ++
      String.ofList line

/-- The lines that close a report. -/
def closing (Z : Sheet) (R : Row) (help : Option String) : List String :=
  let above := match help with
    | some text => advice Z (Z.margin R (.below 0 false) false) text
    | none => []
  above ++ [Z.paint (some .margin) (String.join (List.replicate (Z.width + 2) "─") ++ "╯")]

/-- A section of a report. -/
def drawSection (r : Report) (S : SourceText) (filename : String) (colored : Bool) (width : Nat)
    (isFirst isLast : Bool) (s : Section) : List String :=
  let multis := (s.marks.filter Mark.isMulti).mergeSort fun m n => n.length ≤ m.length
  let Z : Sheet := ⟨colored, width, s.marks, multis⟩
  let (first, stop) := s.lines S
  let rows := (S.lines.toList.zipIdx.filter fun (_, i) => first ≤ i && i < stop).map fun (l, i) =>
    Row.ofLine Z i l
  let top : Row := ⟨0, (S.lines[0]?).getD default, [], none⟩
  opening Z (if isFirst then "╭" else "├") (filename ++ ":" ++ place S r.primary) ++
    Z.drawRows false rows ++
    if isLast then closing Z top r.help
    else [blanks (Z.width + 2) ++ Z.paint (some .margin) "│"]

/-- The sections of a report from the first on. -/
def drawSections (r : Report) (S : SourceText) (filename : String) (colored : Bool) (width : Nat)
    (isFirst : Bool) : List Section → List String
  | [] => []
  | s :: rest =>
    r.drawSection S filename colored width isFirst rest.isEmpty s ++
      r.drawSections S filename colored width false rest

/-- The text of a report on a source. -/
def render (r : Report) (source filename : String) (colored : Bool) : String :=
  let S := SourceText.ofString source
  let parts := sections S r.labels
  let width := parts.foldl (fun w s => max w (toString (s.lines S).2).length) 0
  let title := Style.paint colored (.label .red) ("[" ++ r.code ++ "] Error:") ++ " " ++ r.message
  String.join ((title :: r.drawSections S filename colored width true parts).map (· ++ "\n"))

end Report

/-- Draw an error under the source that it was found in. -/
def TypeError.render (e : TypeError) (source filename : String) (colored : Bool) : String :=
  (e.report source.utf8ByteSize).render source filename colored

end TypeInference
