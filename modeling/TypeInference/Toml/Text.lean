import TypeInference.Toml.Reader
import TypeInference.Toml.Scalar

/-!
# Blanks, strings and keys of a TOML text

The parts of a TOML text that are read character by character. Text that is not escaped holds no
control character but the tab. A line end inside a string of several lines is read as a line feed.
-/

namespace TypeInference.Toml

open Reader

/-! ## Blanks, comments and line ends -/

def isSpace (c : Char) : Bool := c == ' ' || c == '\t'

/-- Whether a character may stand in text that is not escaped: no control character but the tab. -/
def isTextChar (c : Char) : Bool := c == '\t' || (0x20 ≤ c.toNat && c.toNat ≠ 0x7f)

def skipSpaces : Reader Unit := do
  let _ ← takeWhile isSpace

/-- Take a line feed, with a carriage return before it or without. -/
def acceptNewline : Reader Bool := do
  if ← accept "\n" then return true else accept "\r\n"

/-- A comment, if there is one, up to the end of its line. -/
def skipComment : Reader Unit := do
  if ← accept "#" then
    let _ ← takeWhile isTextChar

/-- The end of a line: blanks, a comment, and a line end or the end of the text. -/
def lineEnd : Reader Unit := do
  skipSpaces
  skipComment
  if (← peek?).isSome then guard (← acceptNewline)

/-- Blanks, comments and line ends inside an array. -/
def skipTrivia : Reader Unit := do
  let _ ← collect do
    skipSpaces
    skipComment
    if ← acceptNewline then return some () else return none

/-! ## Strings -/

/-- The character with a given number. -/
def charOfCode? (n : Nat) : Option Char := if n.isValidChar then some (Char.ofNat n) else none

/-- As many hexadecimal digits, read as the number of a character. -/
def codePoint (count : Nat) : Reader Char := do
  let digits ← (List.replicate count ()).mapM fun _ => next
  guard (digits.all fun c => (digit? 16 c).isSome)
  liftM (charOfCode? (digitsValue 16 digits))

/-- What stands after a backslash. -/
def escape : Reader Char := do
  match ← next with
  | 'b' => return '\x08'
  | 't' => return '\t'
  | 'n' => return '\n'
  | 'f' => return '\x0c'
  | 'r' => return '\r'
  | '"' => return '"'
  | '\\' => return '\\'
  | 'u' => codePoint 4
  | 'U' => codePoint 8
  | _ => failure

/-- One character of a string between double quotes, none at its end. -/
def basicChar : Reader (Option Char) := do
  match ← next with
  | '"' => return none
  | '\\' => return some (← escape)
  | c => do
    guard (isTextChar c)
    return some c

/-- One character of a string between single quotes, none at its end. -/
def literalChar : Reader (Option Char) := do
  match ← next with
  | '\'' => return none
  | c => do
    guard (isTextChar c)
    return some c

/-- The quotes at the front of the text inside three quotes. Three close it; up to two more belong
to the text and stand before those three. -/
def quotes (quote : Char) : Reader (Option Char) := do
  let run := ((← get).takeWhile (· == quote)).length
  guard (run < 6)
  if run = 3 then
    set ((← get).drop 3)
    return none
  else return some (← next)

/-- After a backslash: if only blanks are left on the line, go on to the next text. -/
def acceptLineJoin : Reader Bool := fun cs =>
  let rest := cs.dropWhile isSpace
  if "\n".toList.isPrefixOf rest || "\r\n".toList.isPrefixOf rest then
    match Reader.collect (do
        skipSpaces
        if ← acceptNewline then return some () else return none) rest with
    | some (_, rest) => some (true, rest)
    | none => none
  else some (false, cs)

/-- Some characters of a string between three double quotes, none at its end. -/
def multiBasicChars : Reader (Option (List Char)) := do
  match ← peek? with
  | some '"' => return (← quotes '"').map fun c => [c]
  | some '\\' => do
    let _ ← next
    if ← acceptLineJoin then return some [] else return some [← escape]
  | _ =>
    if ← acceptNewline then return some ['\n']
    else do
      let c ← next
      guard (isTextChar c)
      return some [c]

/-- Some characters of a string between three single quotes, none at its end. -/
def multiLiteralChars : Reader (Option (List Char)) := do
  if (← peek?) = some '\'' then return (← quotes '\'').map fun c => [c]
  else if ← acceptNewline then return some ['\n']
  else
    let c ← next
    guard (isTextChar c)
    return some [c]

/-- A string within one line. -/
def lineString : Reader String := do
  if ← accept "\"" then return String.ofList (← collect basicChar)
  else
    expect "'"
    return String.ofList (← collect literalChar)

/-- Any string. A line end right after three quotes is not part of it. -/
def string : Reader String := do
  if ← accept "\"\"\"" then
    let _ ← acceptNewline
    return String.ofList (← collect multiBasicChars).flatten
  else if ← accept "'''" then
    let _ ← acceptNewline
    return String.ofList (← collect multiLiteralChars).flatten
  else lineString

/-! ## Keys -/

/-- The bound on nesting and on the parts of a key. -/
def depthLimit : Nat := 80

def isBareKeyChar (c : Char) : Bool := c.isAlphanum || c == '_' || c == '-'

def simpleKey : Reader String := do
  match ← peek? with
  | some '"' | some '\'' => lineString
  | _ => do
    let cs ← takeWhile isBareKeyChar
    guard (!cs.isEmpty)
    return String.ofList cs

/-- A key: parts joined by dots, blanks allowed around each dot. -/
def key : Reader (List String) := do
  skipSpaces
  let first ← simpleKey
  let rest ← collect do
    skipSpaces
    if ← accept "." then
      skipSpaces
      return some (← simpleKey)
    else return none
  guard ((first :: rest).length < depthLimit)
  return first :: rest

end TypeInference.Toml
