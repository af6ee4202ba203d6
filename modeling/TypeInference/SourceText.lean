/-!
# Lines of a source text

A source text is seen as its characters and its lines. A line holds its terminator; carriage return
and line feed together are one. Positions in a text count characters.
-/

namespace TypeInference

/-- Whether a character takes space and shows nothing (the Unicode property `White_Space`). -/
def isBlank (c : Char) : Bool :=
  let n := c.toNat
  (9 ≤ n && n ≤ 13) || n == 0x20 || n == 0x85 || n == 0xa0 || n == 0x1680 ||
    (0x2000 ≤ n && n ≤ 0x200a) || n == 0x2028 || n == 0x2029 || n == 0x202f || n == 0x205f ||
    n == 0x3000

/-- Whether a character ends a line. -/
def isLineEnd (c : Char) : Bool :=
  let n := c.toNat
  (10 ≤ n && n ≤ 13) || n == 0x85 || n == 0x2028 || n == 0x2029

structure SourceLine where
  /-- The position of the first character. -/
  offset : Nat
  /-- The characters, terminator included. -/
  chars : List Char
  deriving DecidableEq, Repr, Inhabited

namespace SourceLine

def length (l : SourceLine) : Nat := l.chars.length

/-- The position after the last character. -/
def stop (l : SourceLine) : Nat := l.offset + l.length

/-- Whether a position is on the line. -/
def holds (l : SourceLine) (pos : Nat) : Bool := l.offset ≤ pos && pos < l.stop

/-- The characters without the blanks at the end. -/
def shown (l : SourceLine) : List Char := (l.chars.reverse.dropWhile isBlank).reverse

end SourceLine

/-- Characters up to and with the first line end, and the rest. -/
def firstLine : List Char → List Char × List Char
  | [] => ([], [])
  | '\r' :: '\n' :: rest => (['\r', '\n'], rest)
  | c :: rest =>
    if isLineEnd c then ([c], rest)
    else
      let (line, rest) := firstLine rest
      (c :: line, rest)

theorem firstLine_append (cs : List Char) : (firstLine cs).1 ++ (firstLine cs).2 = cs := by
  fun_induction firstLine cs <;> simp_all

theorem firstLine_length_lt {cs : List Char} (h : cs ≠ []) :
    (firstLine cs).2.length < cs.length := by
  fun_induction firstLine cs with
  | case1 => exact absurd rfl h
  | case2 rest =>
    simp only [List.length_cons]
    omega
  | case3 c rest _ hc => simp
  | case4 c rest _ hc line rest' hr ih =>
    cases rest with
    | nil => simp [firstLine] at hr; simp [← hr.2]
    | cons d ds =>
      have := ih (by simp)
      rw [hr] at this
      simp only [List.length_cons] at this ⊢
      omega

/-- Cut characters into lines, the first one at position `offset`. -/
def linesFrom (offset : Nat) (cs : List Char) : List SourceLine :=
  if h : cs = [] then []
  else
    have := firstLine_length_lt h
    ⟨offset, (firstLine cs).1⟩ :: linesFrom (offset + (firstLine cs).1.length) (firstLine cs).2
termination_by cs.length

structure SourceText where
  /-- The number of characters. -/
  length : Nat
  lines : Array SourceLine
  deriving Repr

namespace SourceText

/-- The lines of a text; an empty text has one empty line. -/
def ofString (s : String) : SourceText :=
  let cs := s.toList
  ⟨cs.length, if cs.isEmpty then #[⟨0, []⟩] else (linesFrom 0 cs).toArray⟩

/-- The number of lines that start at or before a position. -/
def linesBefore (S : SourceText) (pos : Nat) : Nat :=
  (S.lines.toList.takeWhile fun l => l.offset ≤ pos).length

/-- The index of the line that holds a position, none past the end of the text. -/
def lineAt? (S : SourceText) (pos : Nat) : Option Nat :=
  if pos ≤ S.length then some (S.linesBefore pos - 1) else none

end SourceText

end TypeInference
