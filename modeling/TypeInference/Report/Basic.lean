import TypeInference.TraitTable
import TypeInference.TypeError

/-!
# Reports

A report says what a type error is about: a message, labels on parts of the source and, where there
is something to advise, help. `TypeError.report` writes the report of an error.

Positions are moved into the source first (`Report.clamp`): a span is cut off at the source's length
in bytes, and an empty one is made one byte long if there is room.
-/

namespace TypeInference

inductive LabelColor where
  | red
  | blue
  deriving DecidableEq, Repr

/-- A message about the characters from `start` up to `stop`. -/
structure Label where
  start : Nat
  stop : Nat
  message : String
  color : LabelColor
  deriving DecidableEq, Repr

structure Report where
  code : String
  message : String
  /-- The position named in the first line. -/
  primary : Nat
  labels : List Label
  help : Option String
  deriving DecidableEq, Repr

namespace Report

/-- The part of a source of `size` bytes that a span points at. -/
def clamp (size : Nat) (span : Option Span) : Span :=
  let s := span.getD ⟨0, 0⟩
  let start := min s.start size
  let stop := max (min s.stop size) start
  if start = stop then ⟨start, min (stop + 1) size⟩ else ⟨start, stop⟩

/-- Advice on two types that should be equal. -/
def mismatchHelp (C : TraitTable) (expected found : Ty) : Option String :=
  match expected, found with
  | .con e, .con f =>
    if C.converts (.con f) (.con e) then some ("use `as " ++ e ++ "` to convert explicitly")
    else none
  | .ptr _, .ptr _ | .ptr _, .var _ | .var _, .ptr _ => none
  | .ptr _, _ => some "take the address with `&`"
  | _, .ptr _ => some "dereference the pointer with `*`"
  | _, _ => none

/-- Advice on a trait that a type lacks. -/
def traitHelp (traitName : String) : Option String :=
  if traitName = "Eq" then some "only scalars and pointers can be compared for equality"
  else if traitName = "Ord" then some "only `int` and `char` can be ordered"
  else if traitName = "Callable" then some "only functions can be called"
  else if "HasField".toList.isPrefixOf traitName.toList then
    some "field access needs a struct with that field"
  else if "ConvertibleTo".toList.isPrefixOf traitName.toList then
    some ("casts are allowed between `int` and `char`, from `bool` to `int`, " ++
      "and between pointers")
  else none

/-- Advice on a call with the wrong number of arguments. -/
def argumentHelp (expected found : Nat) : String :=
  if found < expected then "missing " ++ toString (expected - found) ++ " argument(s)"
  else toString (found - expected) ++ " extra argument(s)"

/-- The help for an error. -/
def helpFor (C : TraitTable) : TypeError → Option String
  | .mismatch expected found _ => mismatchHelp C expected found
  | .occursCheck .. => some "a value cannot have a type that refers to itself"
  | .argumentCountMismatch _ expected found _ => some (argumentHelp expected found)
  | .traitNotSatisfied _ traitName _ => traitHelp traitName
  | .unresolvedConstraint .. => some "add a type annotation"
  | .arityMismatch .. | .unboundName .. | .structArityMismatch .. | .notAStruct .. => none

/-- What is said about the error's own position. -/
def labelMessage : TypeError → String
  | .mismatch expected found o =>
    o.describe ++ ": expected `" ++ expected.text ++ "`, found `" ++ found.text ++ "`"
  | .occursCheck _ _ o => "recursive type in " ++ o.describe
  | .arityMismatch expected _ o =>
    o.describe ++ ": expected " ++ toString expected ++ " element(s)"
  | .unboundName name _ => "`" ++ name ++ "` is not declared in this scope"
  | .argumentCountMismatch _ expected _ _ => "expected " ++ toString expected ++ " argument(s)"
  | .structArityMismatch _ expected _ _ =>
    "expected " ++ toString expected ++ " value(s), one per field"
  | .notAStruct name _ _ => "`" ++ name ++ "` does not name a struct type"
  | .traitNotSatisfied t _ o => o.describe ++ " has type `" ++ t.text ++ "`"
  | .unresolvedConstraint _ o => "type of " ++ o.describe ++ " is unknown"

def label (span : Span) (message : String) (color : LabelColor) : Label :=
  ⟨span.start, span.stop, message, color⟩

/-- One label on the error's position; two branches that differ are labelled each. -/
def labelsFor (size : Nat) : TypeError → List Label
  | .mismatch expected found (.ifBranches _ thenBranch (some elseBranch)) =>
    [label (clamp size (some thenBranch)) ("this branch is `" ++ expected.text ++ "`") .red,
      label (clamp size (some elseBranch)) ("this branch is `" ++ found.text ++ "`") .blue]
  | e => [label (clamp size e.span?) (labelMessage e) .red]

end Report

/-- The report of an error in a source of `size` bytes. -/
def TypeError.report (e : TypeError) (size : Nat) : Report where
  code := e.code
  message := e.message
  primary := (Report.clamp size e.span?).start
  labels := Report.labelsFor size e
  help := Report.helpFor .builtin e

end TypeInference
