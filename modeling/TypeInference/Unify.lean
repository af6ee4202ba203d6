import TypeInference.Action
import TypeInference.VarTable.Resolve

/-!
# Unification

`unify` makes two types equal by merging and binding classes of variables, or says why they cannot
be equal. It compares the outermost forms of the two types (`Ty.confront`) and goes on with the
pairs of parts that have to be equal then, from left to right. A class is bound only to a type that
it does not occur in.

A constructor that is the name of a declared struct equals the struct of that name. Two structs
declared under different names are different; all other structs are equal when they list the same
field names in the same order with equal types.
-/

namespace TypeInference

/-- What follows from the outermost forms of two types that have to be equal. -/
inductive Confrontation where
  /-- They are equal as soon as each of these pairs is. -/
  | parts (pairs : List (Ty × Ty))
  | merge (v w : TyVar)
  | assign (v : TyVar) (t : Ty)
  | differentShape
  | differentNames
  | differentArity (expected found : Nat)
  deriving DecidableEq, Repr

namespace Ty

/-- Two layouts: different names, different numbers of fields or different field names rule
equality out; otherwise the fields decide. -/
def confrontFields (m n : Option String) (fs gs : List (String × Ty)) : Confrontation :=
  if m.isSome ∧ n.isSome ∧ m ≠ n then .differentNames
  else if fs.length ≠ gs.length then .differentArity fs.length gs.length
  else if fs.map Prod.fst ≠ gs.map Prod.fst then .differentShape
  else .parts ((fs.map Prod.snd).zip (gs.map Prod.snd))

/-- Compare the outermost forms of two types. -/
def confront : Ty → Ty → Confrontation
  | .var v, .var w => if v = w then .parts [] else .merge v w
  | .var v, t => .assign v t
  | t, .var v => .assign v t
  | .con m, .con n => if m = n then .parts [] else .differentShape
  | .ptr s, .ptr t => .parts [(s, t)]
  | .fn ps r, .fn qs s =>
    if ps.length = qs.length then .parts (ps.zip qs ++ [(r, s)])
    else .differentArity ps.length qs.length
  | .con c, .struct (some n) _ => if c = n then .parts [] else .differentShape
  | .struct (some n) _, .con c => if c = n then .parts [] else .differentShape
  | .struct m fs, .struct n gs => confrontFields m n fs gs
  | _, _ => .differentShape

end Ty

namespace VarTable

/-- The leader of a type whose outermost variable, if it is one, has to be minted. -/
def checkedLeader (T : VarTable) (t : Ty) : Except Fault Ty :=
  match t with
  | .var v => do T.requireVar v; return T.leader t
  | _ => return T.leader t

/-- Resolve a type whose variables have to be minted. -/
def checkedResolve (T : VarTable) (t : Ty) : Except Fault Ty := do
  T.requireVars t.occurrences
  return T.resolve t

/-- Whether the class of `v` is met from one of the given variables; each variable has to be minted
when its turn comes, and the first meeting settles the question. -/
def checkedOccursAmong (T : VarTable) (v : TyVar) : List TyVar → Except Fault Bool
  | [] => return false
  | w :: ws => do
    T.requireVar w
    T.requireVar v
    if T.reachesVar v T.size w then return true else T.checkedOccursAmong v ws

def checkedOccurs (T : VarTable) (v : TyVar) (t : Ty) : Except Fault Bool :=
  T.checkedOccursAmong v t.occurrences

end VarTable

namespace Unify

/-- Refuse a mismatch, both sides written as far as they are known. -/
def mismatch {α : Type} (origin : Origin) (expected found : Ty) : Action VarTable α := do
  let T ← get
  let expected ← Action.require (T.checkedResolve expected)
  let found ← Action.require (T.checkedResolve found)
  Action.fail (.mismatch expected found origin)

/-- Bind the unbound class of `v` to `t`, unless it occurs in `t`. -/
def assign (origin : Origin) (v : TyVar) (t : Ty) : Action VarTable Unit := do
  let T ← get
  if ← Action.require (T.checkedOccurs v t) then
    let t ← Action.require (T.checkedResolve t)
    Action.fail (.occursCheck v t origin)
  else set (T.assign v t)

/-- Make two types equal, going at most `depth` levels down. -/
def atDepth (origin : Origin) : Nat → Ty → Ty → Action VarTable Unit
  | 0, _, _ => Action.abort .depthExceeded
  | depth + 1, a, b => do
    let T ← get
    let a ← Action.require (T.checkedLeader a)
    let b ← Action.require (T.checkedLeader b)
    match a.confront b with
    | .parts pairs => pairs.forM fun (s, t) => atDepth origin depth s t
    | .merge v w => set (T.unite v w)
    | .assign v t => assign origin v t
    | .differentShape => mismatch origin a b
    | .differentNames => Action.fail (.mismatch a b origin)
    | .differentArity expected found => Action.fail (.arityMismatch expected found origin)

end Unify

/-- Make two types equal. The depth allowed is that of the deepest path the table can lead to. -/
def unify (a b : Ty) (origin : Origin) : Action VarTable Unit := do
  Unify.atDepth origin ((← get).depthBound [a, b]) a b

end TypeInference
