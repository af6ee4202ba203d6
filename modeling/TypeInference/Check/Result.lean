import TypeInference.Check.Walk

/-!
# Checking a program

`Program.check` checks a bound program one top-level statement at a time and reports the types,
schemes and errors that it finds. A type error ends the top-level statement that it occurs in, and
the check goes on with the next. A fault ends the check.
-/

namespace TypeInference

namespace Check

/-- The state in which the check of a program starts. -/
def start (scopes : ScopeTree) : CheckState := ⟨∅, scopes, [], [], ∅, ∅, []⟩

end Check

/-- What the check of one top-level statement came to. -/
structure Outcome where
  verdict : Except TypeError Ty
  /-- What was done on the way, in order. -/
  events : List Event

/-- A finished check: what each top-level statement came to, and the state at the end. -/
structure CheckRun where
  outcomes : List Outcome
  final : CheckState

namespace Check

/-- Check one top-level statement. An error leaves no obligation and no open function behind. -/
def outcome (opts : CheckOptions) (s : Stmt Span) (st : CheckState) :
    Except Fault (Outcome × CheckState) :=
  match (topLevel opts s).run { st with events := [] } with
  | (.ok t, st) => .ok (⟨.ok t, st.events.reverse⟩, st)
  | (.error (.error e), st) =>
    .ok (⟨.error e, st.events.reverse⟩, { st with queue := [], returns := [] })
  | (.error (.fault f), _) => .error f

/-- Check top-level statements in turn. -/
def outcomes (opts : CheckOptions) : List (Stmt Span) → CheckState →
    Except Fault (List Outcome × CheckState)
  | [], st => return ([], st)
  | s :: ss, st => do
    let (o, st) ← outcome opts s st
    let (os, st) ← outcomes opts ss st
    return (o :: os, st)

end Check

/-- Check a bound program against the tree that it was bound in. -/
def Program.checkRun (opts : CheckOptions) (P : Program Span) (scopes : ScopeTree) :
    Except Fault CheckRun := do
  let (outcomes, final) ← Check.outcomes opts P (Check.start scopes)
  return ⟨outcomes, final⟩

/-- What a check reports. -/
structure CheckResult where
  /-- The types of literals, field accesses and declarations, in source order. -/
  types : List (Span × Ty)
  /-- The schemes of the generalized functions. -/
  schemes : List (String × Scheme)
  /-- The schemes of the root scope's symbols that have one. -/
  globals : List (String × Scheme)
  /-- One error per failed top-level statement, in order. -/
  errors : List TypeError
  /-- The type of the last top-level statement, unless it failed or there is none. -/
  resultType : Option Ty
  /-- The tree with the slots as the check left them. -/
  scopes : ScopeTree

namespace CheckRun

def errors (R : CheckRun) : List TypeError :=
  R.outcomes.filterMap fun o =>
    match o.verdict with
    | .error e => some e
    | .ok _ => none

def resultType (R : CheckRun) : Option Ty :=
  R.outcomes.getLast?.bind fun o => o.verdict.toOption

/-- Resolve everything recorded under the final bindings. -/
def result (R : CheckRun) : Except Fault CheckResult := do
  let T := R.final.table
  let types ← R.final.types.toList.mapM fun (p, t) => do return (p, ← T.checkedResolve t)
  let schemes ← R.final.schemes.toList.mapM fun (n, σ) => do return (n, ← T.checkedResolveScheme σ)
  let slots := (R.final.scopes.bindings ScopeTree.rootScope).toList.filterMap fun (n, x) =>
    (R.final.scopes.scheme? x).map fun σ => (n, σ)
  let globals ← slots.mapM fun (n, σ) => do return (n, ← T.checkedResolveScheme σ)
  return {
    types := types.mergeSort fun a b => !b.1.before a.1
    schemes, globals, errors := R.errors, resultType := R.resultType, scopes := R.final.scopes }

end CheckRun

/-- Check a bound program and report. -/
def Program.check (opts : CheckOptions) (P : Program Span) (scopes : ScopeTree) :
    Except Fault CheckResult := do
  (← P.checkRun opts scopes).result

end TypeInference
