import TypeInference.Obligation
import TypeInference.TraitTable
import TypeInference.Unify

/-!
# Solving obligations

`solve` works through a list of obligations in passes. In a pass every obligation is looked at once,
in order: an equality is unified, a trait whose bound is known is decided, and a trait whose bound
is still a variable is put off to the next pass. A pass that decides nothing, or the last one
allowed, leaves the first obligation put off as the one reported.
-/

namespace TypeInference

/-- What obligations are decided against. -/
structure Setting where
  scopes : ScopeTree
  traits : TraitTable

/-- What became of an obligation in one pass. -/
inductive Verdict where
  | discharged
  | deferred
  deriving DecidableEq, Repr

namespace Solve

/-- The fields of the layout that a symbol declares, if it declares one. -/
def declaredFields? (x : Symbol) : Option (List (String × Ty)) :=
  match x.kind, x.scheme with
  | .type, some ⟨_, .struct _ fields⟩ => some fields
  | _, _ => none

/-- The fields of the struct that a leader denotes: its own, or those declared for its name where
the name is no builtin. -/
def fields? (S : Setting) (scope : ScopeId) : Ty → Except Fault (Option (List (String × Ty)))
  | .struct _ fields => return some fields
  | .con name => do
    if Ty.isBuiltinName name then return none
    let _ ← S.scopes.requireScope scope
    return ((S.scopes.lookup? scope name).bind S.scopes.symbol?).bind declaredFields?
  | _ => return none

def isFunction : Ty → Bool
  | .fn .. => true
  | _ => false

/-- Decide a trait of a bound whose outermost form is `leader`, no variable. -/
def decideTrait (S : Setting) (origin : Origin) (leader : Ty) : Trait → Action VarTable Bool
  | .eq => return S.traits.satisfiesEq leader
  | .ord => return S.traits.satisfiesOrd leader
  | .callable => return isFunction leader
  | .hasField field ty scope => do
    match (← Action.require (fields? S scope leader)).bind (Ty.fieldType? field) with
    | none => return false
    | some declared => do
      unify declared ty origin
      return true
  | .convertibleTo target => do
    let T ← get
    let source ← Action.require (T.checkedResolve leader)
    let target ← Action.require (T.checkedResolve target)
    return S.traits.converts source target

/-- Refuse a trait of a bound whose outermost form is `leader`. -/
def refuse {α : Type} (origin : Origin) (leader : Ty) (trait : Trait) : Action VarTable α := do
  let t ← Action.require ((← get).checkedResolve leader)
  Action.fail (.traitNotSatisfied t trait.name origin)

/-- Look at an obligation once. -/
def discharge (S : Setting) (o : Obligation) : Action VarTable Verdict :=
  match o.constraint with
  | .equal a b => do
    unify a b o.origin
    return .discharged
  | .has bound trait => do
    match ← Action.require ((← get).checkedLeader bound) with
    | .var _ => return .deferred
    | leader =>
      if ← decideTrait S o.origin leader trait then return .discharged
      else refuse o.origin leader trait

/-- One pass; the result lists the obligations put off, in their order. -/
def pass (S : Setting) : List Obligation → Action VarTable (List Obligation)
  | [] => return []
  | o :: os => do
    match ← discharge S o with
    | .discharged => pass S os
    | .deferred => return o :: (← pass S os)

/-- Report an obligation that nothing more can be learned about. -/
def stuck {α : Type} (o : Obligation) : Action VarTable α := do
  let T ← get
  let constraint ← Action.require (o.constraint.mapTypesM T.checkedResolve)
  Action.fail (.unresolvedConstraint constraint.text o.origin)

/-- Passes over a list of obligations, `more` of them after the first. -/
def passes (S : Setting) (more : Nat) (pending : List Obligation) : Action VarTable Unit := do
  match ← pass S pending with
  | [] => return ()
  | o :: os =>
    match more with
    | 0 => stuck o
    | more + 1 => if (o :: os).length = pending.length then stuck o else passes S more (o :: os)

end Solve

/-- Discharge every obligation, in at most `maxPasses` passes (but at least one), or stop at the
first error. -/
def solve (S : Setting) (maxPasses : Nat) (pending : List Obligation) : Action VarTable Unit :=
  match pending with
  | [] => return ()
  | _ => Solve.passes S (maxPasses - 1) pending

end TypeInference
