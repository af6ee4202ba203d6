import TypeInference.Origin
import TypeInference.Ty.Text

/-!
# Type errors

A type error ends the check of one top-level statement. Those that a constraint caused carry the
constraint's origin; the others carry the position of the syntax they are about.
-/

namespace TypeInference

inductive TypeError where
  | unboundName (name : String) (span : Span)
  /-- Two types that a constraint makes equal are different. -/
  | mismatch (expected found : Ty) (origin : Origin)
  /-- Two function types or layouts have different numbers of parts. -/
  | arityMismatch (expected found : Nat) (origin : Origin)
  | argumentCountMismatch (callee : String) (expected found : Nat) (span : Span)
  | structArityMismatch (structName : String) (expected found : Nat) (span : Span)
  /-- A variable would stand for a type that holds the variable itself. -/
  | occursCheck (v : TyVar) (ty : Ty) (origin : Origin)
  | notAStruct (name : String) (ty : Ty) (span : Span)
  | traitNotSatisfied (ty : Ty) (traitName : String) (origin : Origin)
  /-- No more could be learned about the type that `constraint` is about. -/
  | unresolvedConstraint (constraint : String) (origin : Origin)
  deriving DecidableEq, Repr

namespace TypeError

def message : TypeError → String
  | .unboundName name _ => "unbound name `" ++ name ++ "`"
  | .mismatch expected found _ =>
    "type mismatch: expected `" ++ expected.text ++ "`, found `" ++ found.text ++ "`"
  | .arityMismatch expected found _ =>
    "arity mismatch: expected " ++ toString expected ++ ", found " ++ toString found
  | .argumentCountMismatch callee expected found _ =>
    "`" ++ callee ++ "` takes " ++ toString expected ++ " argument(s) but " ++ toString found ++
      " were supplied"
  | .structArityMismatch name expected found _ =>
    "struct `" ++ name ++ "` has " ++ toString expected ++ " field(s) but " ++ toString found ++
      " value(s) were supplied"
  | .occursCheck v t _ => "infinite type: `" ++ Ty.varText v ++ "` occurs in `" ++ t.text ++ "`"
  | .notAStruct name t _ => "`" ++ name ++ "` is not a struct type (found `" ++ t.text ++ "`)"
  | .traitNotSatisfied t traitName _ =>
    "type `" ++ t.text ++ "` does not satisfy `" ++ traitName ++ "`"
  | .unresolvedConstraint constraint _ =>
    "cannot infer enough type information to resolve `" ++ constraint ++ "`"

/-- The code under which each kind of error is documented. -/
def code : TypeError → String
  | .mismatch .. => "E0001"
  | .occursCheck .. => "E0002"
  | .arityMismatch .. => "E0003"
  | .unboundName .. => "E0004"
  | .argumentCountMismatch .. => "E0005"
  | .structArityMismatch .. => "E0006"
  | .notAStruct .. => "E0007"
  | .traitNotSatisfied .. => "E0008"
  | .unresolvedConstraint .. => "E0009"

/-- The constraint's origin, for the errors that a constraint caused. -/
def origin? : TypeError → Option Origin
  | .mismatch _ _ o | .arityMismatch _ _ o | .occursCheck _ _ o | .traitNotSatisfied _ _ o
  | .unresolvedConstraint _ o => some o
  | .unboundName .. | .argumentCountMismatch .. | .structArityMismatch .. | .notAStruct .. => none

/-- Where the error is, if it is anywhere in the source. -/
def span? : TypeError → Option Span
  | .unboundName _ s | .argumentCountMismatch _ _ _ s | .structArityMismatch _ _ _ s
  | .notAStruct _ _ s => some s
  | .mismatch _ _ o | .arityMismatch _ _ o | .occursCheck _ _ o | .traitNotSatisfied _ _ o
  | .unresolvedConstraint _ o => o.span?

theorem span?_eq_of_origin? {e : TypeError} {o : Origin} (h : e.origin? = some o) :
    e.span? = o.span? := by
  cases e <;> simp_all [origin?, span?]

end TypeError

end TypeInference
