import TypeInference.Assoc
import TypeInference.Action
import TypeInference.VarTable.Resolve
import TypeInference.Unify

/-!
# Generalization and instantiation

`generalize` turns a type into a scheme over the variables that the environment does not hold.
`instantiate` gives a scheme's quantified variables new ones. It works in three steps: expand the
scheme's type around its quantified variables, mint one variable for each quantified variable met
there that has none yet, and replace. The substitution is kept, so that several instantiations can
share it.
-/

namespace TypeInference

/-- The types chosen so far for quantified variables. -/
abbrev KnownParams := Assoc TyVar Ty

namespace VarTable

/-- The scheme over every unbound variable of `t` that is not in `env`, in order of first
occurrence. `env` holds roots. -/
def generalize (T : VarTable) (t : Ty) (env : List TyVar) : Scheme :=
  ⟨(T.freeVars t).filter fun v => v ∉ env, T.resolve t⟩

/-- Generalize a type whose variables have to be minted. -/
def checkedGeneralize (T : VarTable) (t : Ty) (env : List TyVar) : Except Fault Scheme := do
  T.requireVars t.occurrences
  return T.generalize t env

/-- Resolve a scheme whose variables, apart from the quantified ones, have to be minted. -/
def checkedResolveScheme (T : VarTable) (s : Scheme) : Except Fault Scheme := do
  T.requireVars (s.ty.occurrences.filter fun v => v ∉ s.vars)
  return T.resolveScheme s

def checkedFreeVars (T : VarTable) (t : Ty) : Except Fault (List TyVar) := do
  T.requireVars t.occurrences
  return T.freeVars t

/-- The free variables of a scheme, all of whose variables have to be minted. -/
def checkedSchemeFreeVars (T : VarTable) (s : Scheme) : Except Fault (List TyVar) := do
  T.requireVars s.vars
  T.requireVars s.ty.occurrences
  return T.schemeFreeVars s

end VarTable

namespace Instantiate

/-- The new variables of one instantiation are given out here: a quantified variable without a type
gets one, any other variable has to be minted by the time it is met. -/
def meet (quantified : List TyVar) (v : TyVar) : Action (VarTable × KnownParams) Unit := do
  let (T, known) ← get
  if v ∈ quantified then
    if known.contains v then return ()
    else
      let (w, T) := T.mint
      set (T, known.insert v (.var w))
  else Action.require (T.requireVar v)

/-- The replacement that an instantiation makes. -/
def replacement (quantified : List TyVar) (known : KnownParams) (v : TyVar) : Ty :=
  if v ∈ quantified then (known.get? v).getD (.var v) else .var v

end Instantiate

/-- Instantiate a scheme, with the types already chosen for its quantified variables and new
variables for those that are met for the first time. -/
def instantiateWith (s : Scheme) : Action (VarTable × KnownParams) Ty := do
  if s.isMono then return s.ty
  let body := (← get).1.expand s.vars s.ty
  body.vars.forM (Instantiate.meet s.vars)
  return body.bind (Instantiate.replacement s.vars (← get).2)

/-- Instantiate a scheme with a new variable for each of its quantified variables. -/
def instantiate (s : Scheme) : Action VarTable Ty := fun T =>
  let (r, T, _) := (instantiateWith s).run (T, ∅)
  (r, T)

end TypeInference
