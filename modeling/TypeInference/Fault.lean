import TypeInference.Span
import TypeInference.Ty.Text

/-!
# Faults

A fault is what a program or a sequence of operations runs into when it breaks a promise that the
checker relies on: an id that its table does not have, or a construct that the checker has no rule
for. A fault ends the whole run, unlike a type error, which ends one statement.
-/

namespace TypeInference

inductive Fault where
  /-- The place `index` of a table that holds `size` entries. -/
  | outOfBounds (size index : Nat)
  | returnOutsideFunction (span : Span)
  | computedCallee (span : Span)
  | castWithoutTarget (span : Span)
  /-- A `return` stamped with the name of something that is no function. -/
  | returnToNonFunction (span : Span) (name : String) (ty : Ty)
  /-- The recursion went deeper than the table of variables allows for. -/
  | depthExceeded
  deriving DecidableEq, Repr

namespace Fault

def message : Fault → String
  | .outOfBounds size index =>
    "index out of bounds: the len is " ++ toString size ++ " but the index is " ++ toString index
  | .returnOutsideFunction s => "return at " ++ s.text ++ " is not inside a function"
  | .computedCallee s => "call at " ++ s.text ++ " goes through a computed callee"
  | .castWithoutTarget s => "cast at " ++ s.text ++ " has no destination type"
  | .returnToNonFunction s name t =>
    "return at " ++ s.text ++ " names `" ++ name ++ "`, which has non-function type `" ++
      t.text ++ "`"
  | .depthExceeded => "recursion limit exceeded"

/-- Refuse a place that a table of `size` entries does not have. -/
def requireIndex (size index : Nat) : Except Fault Unit :=
  if index < size then .ok () else .error (.outOfBounds size index)

theorem requireIndex_eq_ok {size index : Nat} :
    requireIndex size index = .ok () ↔ index < size := by
  unfold requireIndex
  split <;> simp [*]

end Fault

end TypeInference
