import TypeInference.Origin
import TypeInference.ScopeTree
import TypeInference.Ty.Text

/-!
# Obligations

While a statement is walked, each construct records what it demands of the types involved. A
demand is an equality, which can be acted on at once, or a trait, which waits until the type that
it is asked of, its bound, is known.
-/

namespace TypeInference

/-- What can be asked of a type. -/
inductive Trait where
  /-- It can be compared for equality. -/
  | eq
  /-- It can be ordered. -/
  | ord
  /-- It is a function type. -/
  | callable
  /-- It is a struct with a field of the given name and type. The name of a struct is looked up from
  `scope`. -/
  | hasField (field : String) (ty : Ty) (scope : ScopeId)
  /-- It can be cast to `target`. -/
  | convertibleTo (target : Ty)
  deriving DecidableEq, Repr

/-- The name under which an error mentions a trait. -/
def Trait.name : Trait → String
  | .eq => "Eq"
  | .ord => "Ord"
  | .callable => "Callable"
  | .hasField field _ _ => "HasField `" ++ field ++ "`"
  | .convertibleTo target => "ConvertibleTo `" ++ target.text ++ "`"

/-- The types that a trait speaks of besides its bound. -/
def Trait.types : Trait → List Ty
  | .hasField _ u _ | .convertibleTo u => [u]
  | _ => []

inductive Constraint where
  /-- Both are the same type. -/
  | equal (a b : Ty)
  | has (bound : Ty) (t : Trait)
  deriving DecidableEq, Repr

namespace Constraint

def name : Constraint → String
  | .equal .. => "TypesEq"
  | .has _ t => t.name

/-- The type that a trait is asked of. An equality has none. -/
def bound? : Constraint → Option Ty
  | .equal .. => none
  | .has t _ => some t

/-- The types that a constraint is about. -/
def types : Constraint → List Ty
  | .equal a b => [a, b]
  | .has t trait => t :: trait.types

/-- Send every type of a constraint through `f`, in the order in which they are written. -/
def mapTypesM {m : Type → Type} [Monad m] (f : Ty → m Ty) : Constraint → m Constraint
  | .equal a b => do
    let a ← f a
    return .equal a (← f b)
  | .has t (.hasField field u scope) => do
    let t ← f t
    return .has t (.hasField field (← f u) scope)
  | .has t (.convertibleTo u) => do
    let t ← f t
    return .has t (.convertibleTo (← f u))
  | .has t trait => do return .has (← f t) trait

def text : Constraint → String
  | .equal a b => "TypesEq(" ++ a.text ++ ", " ++ b.text ++ ")"
  | .has t .eq => "Eq(" ++ t.text ++ ")"
  | .has t .ord => "Ord(" ++ t.text ++ ")"
  | .has t .callable => "Callable(" ++ t.text ++ ")"
  | .has t (.hasField field u _) => "HasField(" ++ t.text ++ ", " ++ field ++ ": " ++ u.text ++ ")"
  | .has t (.convertibleTo u) => "ConvertibleTo(" ++ t.text ++ ", " ++ u.text ++ ")"

end Constraint

/-- A constraint together with the syntax that it comes from. -/
structure Obligation where
  constraint : Constraint
  origin : Origin
  deriving DecidableEq, Repr

end TypeInference
