import TypeInference.Polymorphism
import TypeInference.Program.Basic
import TypeInference.Solve
import TypeInference.Trace

/-!
# The state of a check

`CheckM` is the monad in which a program is checked: it holds the table of variables, the tree of
scopes, the queue of obligations and what has been recorded so far. This module has the operations
that the walk over a program is made of: minting a variable, recording a demand or a type, solving
the queue, and reading the slot of a symbol.
-/

namespace TypeInference

/-- How a program is checked. -/
structure CheckOptions where
  /-- How many passes the solver may make over one queue. -/
  maxPasses : Nat
  deriving DecidableEq, Repr

/-- Where a check stands. -/
structure CheckState where
  table : VarTable
  scopes : ScopeTree
  /-- The obligations recorded and not yet solved, in the order of recording. -/
  queue : List Obligation
  /-- The functions whose bodies are being walked and their result types, innermost first. -/
  returns : List (String × Ty)
  /-- The types recorded for nodes; a later record of a position replaces an earlier one. -/
  types : Assoc Span Ty
  /-- The schemes of the generalized functions by name. -/
  schemes : Assoc String Scheme
  /-- What was done in the current top-level statement, last first. -/
  events : List Event

abbrev CheckM := Action CheckState

namespace Check

/-! ## The state -/

def note (e : Event) : CheckM Unit := modify fun s => { s with events := e :: s.events }

/-- Run an action on the table of variables. -/
def onTable {α : Type} (x : Action VarTable α) : CheckM α :=
  Action.onPart CheckState.table (fun s T => { s with table := T }) x

/-- Read the table of variables with a checked function. -/
def readTable {α : Type} (f : VarTable → Except Fault α) : CheckM α := do
  Action.require (f (← get).table)

/-- A new type variable. -/
def fresh : CheckM Ty := modifyGet fun s =>
  let (v, T) := s.table.mint
  (.var v, { s with table := T })

/-- Record an obligation. -/
def demand (constraint : Constraint) (origin : Origin) : CheckM Unit := do
  note (.demand ⟨constraint, origin⟩)
  modify fun s => { s with queue := s.queue ++ [⟨constraint, origin⟩] }

def demandEqual (expected found : Ty) (origin : Origin) : CheckM Unit :=
  demand (.equal expected found) origin

/-- Record the type of a node. -/
def record (pos : Span) (t : Ty) : CheckM Unit :=
  modify fun s => { s with types := s.types.insert pos t }

/-- Take the queue and solve it. -/
def solveQueue (opts : CheckOptions) : CheckM Unit := do
  let s ← get
  set { s with queue := [] }
  onTable (solve ⟨s.scopes, .builtin⟩ opts.maxPasses s.queue)

/-! ## Symbols -/

/-- The slot of a symbol; an empty one is filled with a new variable first. -/
def symbolScheme (x : SymbolId) : CheckM Scheme := do
  let symbol ← Action.require ((← get).scopes.requireSymbol x)
  match symbol.scheme with
  | some σ => return σ
  | none =>
    let σ := Scheme.mono (← fresh)
    modify fun s => { s with scopes := s.scopes.setScheme x σ }
    return σ

/-- The symbol that `name` denotes in `scope`; `pos` is where it is missed. -/
def lookup (scope : ScopeId) (name : String) (pos : Span) : CheckM SymbolId := do
  let T := (← get).scopes
  let _ ← Action.require (T.requireScope scope)
  match T.lookup? scope name with
  | some x => return x
  | none => Action.fail (.unboundName name pos)

/-- The free variables of every slot visible from `scope`, that of `self` left out. -/
def envVars (scope : ScopeId) (self : SymbolId) : CheckM (List TyVar) := do
  let s ← get
  let slots := ((s.scopes.visible scope).filter (· ≠ self)).filterMap s.scopes.scheme?
  return (← Action.require (slots.mapM s.table.checkedSchemeFreeVars)).flatten

end Check

end TypeInference
