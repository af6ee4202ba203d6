import TypeInference.Span

/-!
# Origins

An `Origin` names the piece of syntax that a constraint comes from. An error shows it to point at
the argument, operand or branch responsible, not at the whole declaration.
-/

namespace TypeInference

inductive Origin where
  /-- The argument at position `index` of a call. -/
  | fnArg (call arg : Span) (index : Nat)
  | callee (call : Span)
  | unaryOp (op operand : Span)
  | binOp (op operand : Span)
  | comparison (op : Span)
  | condition (cond : Span)
  | ifBranches (whole thenBranch : Span) (elseBranch : Option Span)
  | deref (span : Span)
  | allocSize (span : Span)
  | structField (init value : Span) (field : String)
  | fieldAccess (span : Span)
  | cast (span : Span)
  | letBinding (binding value : Span)
  | param (span : Span)
  | fnSignature (function : Span)
  | fnBody (function body : Span)
  | ret (whole value : Span)
  | assignment (target value : Span)
  /-- A constraint that no syntax produced. -/
  | builtin
  deriving DecidableEq, Repr, Inhabited

namespace Origin

/-- The part of the source that an error about the constraint points at. -/
def span? : Origin → Option Span
  | .fnArg _ arg _ => some arg
  | .callee call => some call
  | .unaryOp _ operand => some operand
  | .binOp _ operand => some operand
  | .comparison op => some op
  | .condition cond => some cond
  | .ifBranches _ thenBranch elseBranch => some (elseBranch.getD thenBranch)
  | .deref span => some span
  | .allocSize span => some span
  | .structField _ value _ => some value
  | .fieldAccess span => some span
  | .cast span => some span
  | .letBinding _ value => some value
  | .param span => some span
  | .fnSignature function => some function
  | .fnBody _ body => some body
  | .ret _ value => some value
  | .assignment _ value => some value
  | .builtin => none

/-- What the constraint was about, in a few words. -/
def describe : Origin → String
  | .fnArg _ _ index => "argument " ++ toString (index + 1) ++ " of this call"
  | .callee _ => "callee of this call"
  | .unaryOp .. => "operand of this unary operator"
  | .binOp .. => "operand of this arithmetic operator"
  | .comparison _ => "operands of this comparison"
  | .condition _ => "condition of this `if`"
  | .ifBranches .. => "branches of this `if`"
  | .deref _ => "operand of this dereference"
  | .allocSize _ => "size of this allocation"
  | .structField _ _ field => "value for field `" ++ field ++ "`"
  | .fieldAccess _ => "this field access"
  | .cast _ => "this cast"
  | .letBinding .. => "initializer of this variable"
  | .param _ => "this parameter"
  | .fnSignature _ => "signature of this function"
  | .fnBody .. => "body of this function"
  | .ret .. => "value of this return"
  | .assignment .. => "right-hand side of this assignment"
  | .builtin => "a builtin constraint"

end Origin

end TypeInference
