import TypeInference.Toml.Table
import TypeInference.Toml.Text

/-!
# TOML documents

`parse?` reads a whole TOML text, or refuses it. Arrays and inline tables nest less than eighty
deep, and a dotted key has fewer than eighty parts.
-/

namespace TypeInference.Toml

open Reader

/-! ## Values -/

/-- A scalar without quotes. A date may be joined to a time by one blank. -/
def scalar : Reader Value := do
  let cs ← takeWhile isTokenChar
  if isDate cs then
    match ← get with
    | ' ' :: rest =>
      if isOffsetTime (rest.takeWhile isTokenChar) then set (rest.dropWhile isTokenChar)
      return .dateTime
    | _ => return .dateTime
  else liftM (scalar? cs)

/-- The items of an array, up to its bracket. A comma may follow the last item. -/
def arrayItems (item : Reader Value) : Reader (List Value) := do
  skipTrivia
  if ← accept "]" then return []
  let first ← item
  let rest ← collect do
    skipTrivia
    if ← accept "]" then return none
    expect ","
    skipTrivia
    if ← accept "]" then return none
    return some (← item)
  return first :: rest

/-- A key, an equals sign and a value. -/
def keyValue (item : Reader Value) : Reader (List String × Value) := do
  let path ← key
  skipSpaces
  expect "="
  skipSpaces
  return (path, ← item)

/-- The entries of an inline table, up to its brace. -/
def inlineEntries (item : Reader Value) : Reader (List (List String × Value)) := do
  skipSpaces
  if ← accept (.singleton '}') then return []
  let first ← keyValue item
  let rest ← collect do
    skipSpaces
    if ← accept (.singleton '}') then return none
    expect ","
    return some (← keyValue item)
  return first :: rest

/-- A value with arrays and inline tables nested less than `depth` deep. -/
def value : Nat → Reader Value
  | 0 => failure
  | depth + 1 => do
    match ← peek? with
    | some '"' | some '\'' => return .string (← string)
    | some '[' => do
      guard (0 < depth)
      let _ ← next
      return .array (← arrayItems (value depth))
    | some '{' => do
      guard (0 < depth)
      let _ ← next
      let pairs ← inlineEntries (value depth)
      let entries ← liftM (pairs.foldlM (fun es (path, v) => Entries.addPath path v es) [])
      return .table (toValues entries)
    | _ => scalar

/-! ## Documents -/

/-- A line that says something. -/
inductive Line where
  | entry (path : List String) (v : Value)
  | header (path : List String)
  | arrayHeader (path : List String)

/-- A line of a document: one that says something, an empty one, or none at the end. -/
def line : Reader (Option (Option Line)) := do
  skipSpaces
  match ← peek? with
  | none => return none
  | some '#' | some '\n' | some '\r' => do
    lineEnd
    return some none
  | some '[' => do
    let said ← if ← accept "[[" then do
        let path ← key
        skipSpaces
        expect "]]"
        pure (Line.arrayHeader path)
      else do
        expect "["
        let path ← key
        skipSpaces
        expect "]"
        pure (Line.header path)
    lineEnd
    return some (some said)
  | some _ => do
    let (path, v) ← keyValue (value depthLimit)
    lineEnd
    return some (some (.entry path v))

/-- The tables built so far and the path of the one that entries go to. -/
structure Document where
  entries : Entries
  current : List String

namespace Document

def addLine (D : Document) : Line → Option Document
  | .entry path v => do
    let es ← Entries.update false (fun _ es => Entries.addPath path v es) D.current false D.entries
    return { D with entries := es }
  | .header path => do return ⟨← Entries.openTable path D.entries, path⟩
  | .arrayHeader path => do return ⟨← Entries.openArrayTable path D.entries, path⟩

end Document

/-- Read a whole text. A byte order mark may stand in front of it. -/
def parse? (text : String) : Option (List (String × Value)) := do
  let cs := match text.toList with
    | '\ufeff' :: cs => cs
    | cs => cs
  let (lines, _) ← (Reader.collect line).run cs
  let D ← (lines.filterMap id).foldlM Document.addLine ⟨[], []⟩
  return toValues D.entries

end TypeInference.Toml
