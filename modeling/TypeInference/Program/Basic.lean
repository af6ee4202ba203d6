import TypeInference.ScopeTree
import TypeInference.Span

/-!
# Programs

A program is a list of statements. Nodes carry a position of some type `π`: spans in a finished
program, wishes in one whose nodes are still to be numbered.

Nodes that take part in name resolution also carry stamps: the scope they stand in, the symbol that
a read or a declaration denotes, the function that a `return` belongs to. Binding fills them in.
Until then they hold the root scope, no symbol and no function.
-/

namespace TypeInference

inductive Literal where
  | int (value : Int)
  | text (value : String)
  | char (value : Char)
  | bool (value : Bool)
  | unit
  deriving DecidableEq, Repr

inductive UnaryOp where
  | neg
  | not
  deriving DecidableEq, Repr

inductive BinaryOp where
  | add
  | sub
  | mul
  | div
  | mod
  deriving DecidableEq, Repr

inductive CompareOp where
  | eq
  | ne
  | lt
  | gt
  | le
  | ge
  deriving DecidableEq, Repr

/-- A formal parameter. -/
structure Formal (π : Type) where
  name : String
  pos : π
  deriving DecidableEq, Repr

mutual

inductive Expr (π : Type) where
  | literal (value : Literal) (pos : π)
  | var (name : String) (pos : π) (scope : ScopeId) (symbol : Option SymbolId)
  | unary (op : UnaryOp) (operand : Expr π) (pos : π)
  | binary (op : BinaryOp) (left right : Expr π) (pos : π)
  | comparison (op : CompareOp) (left right : Expr π) (pos : π)
  | cond (condition thenBranch : Expr π) (elseBranch : Option (Expr π)) (pos : π)
  | deref (operand : Expr π) (pos : π)
  | addressOf (operand : Expr π) (pos : π)
  /-- An allocation; `ty` is the type of the whole expression. -/
  | alloc (ty : Ty) (size : Option (Expr π)) (pos : π)
  | block (body : List (Stmt π)) (final : Option (Expr π)) (pos : π) (scope : ScopeId)
  | call (name : String) (namePos : π) (args : List (Expr π)) (pos : π) (scope : ScopeId)
  /-- A call whose callee is no name but a value. -/
  | callValue (callee : Expr π) (args : List (Expr π)) (pos : π) (scope : ScopeId)
  /-- A struct value, one value per declared field in order. -/
  | structInit (name : String) (values : List (Expr π)) (pos : π) (scope : ScopeId)
  | field (base : Expr π) (field : String) (pos : π) (scope : ScopeId)
  | cast (operand : Expr π) (target : Option Ty) (pos : π)

inductive Stmt (π : Type) where
  | expr (e : Expr π)
  | typeDecl (name : String) (body : Ty) (pos : π) (scope : ScopeId)
  | varDecl (name : String) (written : Option Ty) (value : Expr π) (pos : π) (scope : ScopeId)
      (symbol : Option SymbolId)
  /-- A function, without a body if it is only announced. `hint` is its written type; `scope` holds
  its name and `bodyScope` its formals. -/
  | funDecl (name : String) (formals : List (Formal π)) (body : Option (Expr π)) (hint : Option Ty)
      (pos : π) (scope bodyScope : ScopeId)
  | ret (value : Expr π) (function : Option String) (pos : π) (scope : ScopeId)
  | yield (value : Expr π) (pos : π)
  | assign (target value : Expr π) (pos : π)

end

abbrev Program (π : Type) := List (Stmt π)

variable {π : Type}

def Expr.pos : Expr π → π
  | .literal _ p | .var _ p _ _ | .unary _ _ p | .binary _ _ _ p | .comparison _ _ _ p
  | .cond _ _ _ p | .deref _ p | .addressOf _ p | .alloc _ _ p | .block _ _ p _ | .call _ _ _ p _
  | .callValue _ _ p _ | .structInit _ _ p _ | .field _ _ p _ | .cast _ _ p => p

/-- The position of a statement; an expression statement stands where its expression does. -/
def Stmt.pos : Stmt π → π
  | .expr e => e.pos
  | .typeDecl _ _ p _ | .varDecl _ _ _ p _ _ | .funDecl _ _ _ _ p _ _ | .ret _ _ p _ | .yield _ p
  | .assign _ _ p => p

end TypeInference
