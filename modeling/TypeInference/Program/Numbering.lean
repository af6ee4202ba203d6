import TypeInference.Program.Basic

/-!
# Numbering the nodes of a program

A program that was built by hand has no source text to point into. `Program.number` gives each node
a span of one byte of its own, children before their parent, so that an error can be traced to its
node. A node may wish for another span; the count goes on as if it had not.

The parts of a node are numbered in the order of its constructor, with these exceptions: the name of
a call comes after its arguments, and the body of a function before its formals.
-/

namespace TypeInference

/-- The next span of one byte, or the span wished for in its stead. -/
def Span.place (wish : Option Span) : StateM Nat Span := fun next =>
  (wish.getD ⟨next, next + 1⟩, next + 1)

def Formal.number (f : Formal (Option Span)) : StateM Nat (Formal Span) := do
  return ⟨f.name, ← Span.place f.pos⟩

mutual

def Expr.number : Expr (Option Span) → StateM Nat (Expr Span)
  | .literal v p => do return .literal v (← Span.place p)
  | .var x p s y => do return .var x (← Span.place p) s y
  | .unary op e p => do
    let e ← Expr.number e
    return .unary op e (← Span.place p)
  | .binary op l r p => do
    let l ← Expr.number l
    let r ← Expr.number r
    return .binary op l r (← Span.place p)
  | .comparison op l r p => do
    let l ← Expr.number l
    let r ← Expr.number r
    return .comparison op l r (← Span.place p)
  | .cond c t e p => do
    let c ← Expr.number c
    let t ← Expr.number t
    let e ← Expr.numberOpt e
    return .cond c t e (← Span.place p)
  | .deref e p => do
    let e ← Expr.number e
    return .deref e (← Span.place p)
  | .addressOf e p => do
    let e ← Expr.number e
    return .addressOf e (← Span.place p)
  | .alloc t e p => do
    let e ← Expr.numberOpt e
    return .alloc t e (← Span.place p)
  | .block b e p s => do
    let b ← Stmt.numberAll b
    let e ← Expr.numberOpt e
    return .block b e (← Span.place p) s
  | .call x q as p s => do
    let as ← Expr.numberAll as
    let q ← Span.place q
    return .call x q as (← Span.place p) s
  | .callValue c as p s => do
    let c ← Expr.number c
    let as ← Expr.numberAll as
    return .callValue c as (← Span.place p) s
  | .structInit x vs p s => do
    let vs ← Expr.numberAll vs
    return .structInit x vs (← Span.place p) s
  | .field e x p s => do
    let e ← Expr.number e
    return .field e x (← Span.place p) s
  | .cast e t p => do
    let e ← Expr.number e
    return .cast e t (← Span.place p)

def Expr.numberOpt : Option (Expr (Option Span)) → StateM Nat (Option (Expr Span))
  | none => return none
  | some e => do return some (← Expr.number e)

def Expr.numberAll : List (Expr (Option Span)) → StateM Nat (List (Expr Span))
  | [] => return []
  | e :: es => do
    let e ← Expr.number e
    return e :: (← Expr.numberAll es)

def Stmt.number : Stmt (Option Span) → StateM Nat (Stmt Span)
  | .expr e => do return .expr (← Expr.number e)
  | .typeDecl x t p s => do return .typeDecl x t (← Span.place p) s
  | .varDecl x t e p s y => do
    let e ← Expr.number e
    return .varDecl x t e (← Span.place p) s y
  | .funDecl x fs b t p s s' => do
    let b ← Expr.numberOpt b
    let fs ← fs.mapM Formal.number
    return .funDecl x fs b t (← Span.place p) s s'
  | .ret e f p s => do
    let e ← Expr.number e
    return .ret e f (← Span.place p) s
  | .yield e p => do
    let e ← Expr.number e
    return .yield e (← Span.place p)
  | .assign l r p => do
    let l ← Expr.number l
    let r ← Expr.number r
    return .assign l r (← Span.place p)

def Stmt.numberAll : List (Stmt (Option Span)) → StateM Nat (List (Stmt Span))
  | [] => return []
  | s :: ss => do
    let s ← Stmt.number s
    return s :: (← Stmt.numberAll ss)

end

/-- Number the nodes of a program, the first one at byte `start`. -/
def Program.number (start : Nat) (P : Program (Option Span)) : Program Span :=
  (Stmt.numberAll P start).1

end TypeInference
