import TypeInference.Scheme
import TypeInference.VarTable.Basic

/-!
# Reading types through the table

Four readings of a type under the bindings of a table:

* `leader` looks through bound variables at the top only;
* `expand` looks through them everywhere and leaves unbound variables as they are written;
* `resolve` looks through them everywhere and writes every unbound variable as the root of its
  class, so that two types that the table makes equal are written alike;
* `occurs` asks whether a class can be reached from a type.

Each follows at most as many bindings in a row as the table has variables: bindings form no cycle,
so a chain of them passes a class at most once.
-/

namespace TypeInference.VarTable

/-! ## The outermost form -/

/-- What `v` stands for, looking through at most `fuel` bindings at the top. -/
def leaderVar (T : VarTable) : Nat → TyVar → Ty
  | 0, v => .var (T.root v)
  | fuel + 1, v =>
    match T.value? v with
    | none => .var (T.root v)
    | some (.var w) => T.leaderVar fuel w
    | some t => t

/-- The outermost form of a type: no variable, or the root of an unbound class. -/
def leader (T : VarTable) : Ty → Ty
  | .var v => T.leaderVar T.size v
  | t => t

/-! ## All levels -/

/-- What `v` stands for, looking through at most `fuel` bindings in a row; the variables in `keep`
stay as they are. -/
def expandVar (T : VarTable) (keep : List TyVar) : Nat → TyVar → Ty
  | 0, v => .var v
  | fuel + 1, v =>
    if v ∈ keep then .var v
    else
      match T.value? v with
      | none => .var v
      | some t => t.bind (T.expandVar keep fuel)

/-- A type with every bound variable outside `keep` replaced by what it stands for. -/
def expand (T : VarTable) (keep : List TyVar) (t : Ty) : Ty := t.bind (T.expandVar keep T.size)

/-- A type with every variable outside `keep` replaced by what it stands for or, if it is unbound,
by the root of its class. -/
def resolveExcept (T : VarTable) (keep : List TyVar) (t : Ty) : Ty :=
  (T.expand keep t).bind fun v => if v ∈ keep then .var v else .var (T.root v)

def resolve (T : VarTable) (t : Ty) : Ty := T.resolveExcept [] t

/-- Resolve a scheme around its quantified variables, which read the same whatever became of
them. -/
def resolveScheme (T : VarTable) (s : Scheme) : Scheme := ⟨s.vars, T.resolveExcept s.vars s.ty⟩

/-! ## Occurrence -/

/-- Whether the class of `v` is met on the way from `w` through at most `fuel` bindings in a row. -/
def reachesVar (T : VarTable) (v : TyVar) : Nat → TyVar → Bool
  | 0, w => T.root w == T.root v
  | fuel + 1, w =>
    T.root w == T.root v ||
      match T.value? w with
      | none => false
      | some t => t.occurrences.any (T.reachesVar v fuel)

/-- Whether the class of `v` is met anywhere in `t`. -/
def occurs (T : VarTable) (v : TyVar) (t : Ty) : Bool := t.occurrences.any (T.reachesVar v T.size)

/-! ## Free variables -/

/-- The roots of the unbound classes in `t`, each once, in order of first occurrence. -/
def freeVars (T : VarTable) (t : Ty) : List TyVar := (T.resolve t).vars

/-- The free variables of a scheme's type that it does not quantify over, neither as they are
written nor as roots. -/
def schemeFreeVars (T : VarTable) (s : Scheme) : List TyVar :=
  (T.freeVars s.ty).filter fun v => v ∉ s.vars ∧ v ∉ s.vars.map T.root

end TypeInference.VarTable
