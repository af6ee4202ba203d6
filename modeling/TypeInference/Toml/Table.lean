import TypeInference.Toml.Value

/-!
# Building TOML tables

A document names its tables piece by piece, and each table may be opened only once. `Entries` is a
table under construction: it remembers which tables were only implied by a longer key, and whether a
dotted key or a header implied them. A header may open an implied table, a dotted key may extend one
that dotted keys built, and everything else is a repetition and refused.
-/

namespace TypeInference.Toml

/-! ## Tables under construction -/

/-- A table while it is built up, or a value that is finished. -/
inductive Node where
  | value (v : Value)
  /-- A table that was only implied by a longer key, or not; and whether a dotted key implied it. -/
  | table (isImplicit isDotted : Bool) (entries : List (String × Node))
  /-- An array of tables, of which only the last can still grow. -/
  | tables (finished : List (List (String × Node))) (last : List (String × Node))

abbrev Entries := List (String × Node)

namespace Entries

def get? (es : Entries) (key : String) : Option Node :=
  (es.find? fun e => e.1 == key).map Prod.snd

/-- Put a node under a key, in the place of what stands there. -/
def put (es : Entries) (key : String) (n : Node) : Entries :=
  if (get? es key).isSome then es.map fun e => if e.1 == key then (key, n) else e
  else es ++ [(key, n)]

/-- Change the table at the end of a path. Missing tables on the way are implied. The parts of a
dotted key pass through implied tables only, those of a header through any. -/
def update (viaDots : Bool) (f : Bool → Entries → Option Entries) :
    List String → Bool → Entries → Option Entries
  | [], isDotted, es => f isDotted es
  | k :: path, _, es =>
    match get? es k with
    | none => do
      let sub ← update viaDots f path viaDots []
      return put es k (.table true viaDots sub)
    | some (.value _) => none
    | some (.table isImplicit isDotted sub) =>
      if viaDots && !isImplicit then none
      else do
        let sub ← update viaDots f path isDotted sub
        return put es k (.table isImplicit isDotted sub)
    | some (.tables finished last) => do
      let last ← update viaDots f path false last
      return put es k (.tables finished last)

/-- Add a key that is not there yet. -/
def add (key : String) (v : Value) (es : Entries) : Option Entries :=
  if (get? es key).isSome then none else some (put es key (.value v))

/-- Add a value under a dotted key. All but the last part name tables that dotted keys build. -/
def addPath (path : List String) (v : Value) (es : Entries) : Option Entries :=
  match path.getLast? with
  | none => none
  | some k =>
    update true (fun isDotted es => if path.length = 1 || isDotted then add k v es else none)
      path.dropLast false es

/-- Open the table of a header. It may have been implied by a longer header, nothing else. -/
def openTable (path : List String) (es : Entries) : Option Entries :=
  match path.getLast? with
  | none => none
  | some k =>
    update false (fun _ es =>
      match get? es k with
      | none => some (put es k (.table false false []))
      | some (.table true false sub) => some (put es k (.table false false sub))
      | _ => none) path.dropLast false es

/-- Open one more table of an array of tables. -/
def openArrayTable (path : List String) (es : Entries) : Option Entries :=
  match path.getLast? with
  | none => none
  | some k =>
    update false (fun _ es =>
      match get? es k with
      | none => some (put es k (.tables [] []))
      | some (.tables finished last) => some (put es k (.tables (finished ++ [last]) []))
      | _ => none) path.dropLast false es

end Entries

mutual

/-- The value that a finished node holds. -/
def Node.toValue : Node → Value
  | .value v => v
  | .table _ _ es => .table (toValues es)
  | .tables finished last => .array (toTables finished ++ [.table (toValues last)])

def toValues : List (String × Node) → List (String × Value)
  | [] => []
  | (k, n) :: es => (k, n.toValue) :: toValues es

def toTables : List (List (String × Node)) → List Value
  | [] => []
  | es :: ts => .table (toValues es) :: toTables ts

end

end TypeInference.Toml
