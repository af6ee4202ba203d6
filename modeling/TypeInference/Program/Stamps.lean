import TypeInference.Program.Basic

/-!
# The stamps of a program

`Program.stamps` lists what binding wrote into the nodes of a program, a node before its parts and
the parts in reading order. Nodes without stamps add nothing of their own.
-/

namespace TypeInference

/-- The stamps of one node, with its position. -/
inductive Stamp where
  | typeDecl (pos : Span) (scope : ScopeId) (body : Ty)
  | varDecl (pos : Span) (scope : ScopeId) (symbol : Option SymbolId)
  | funDecl (pos : Span) (scope bodyScope : ScopeId)
  | ret (pos : Span) (scope : ScopeId) (function : Option String)
  | var (pos : Span) (scope : ScopeId) (symbol : Option SymbolId)
  | block (pos : Span) (scope : ScopeId)
  /-- A call, with the position of the callee's name if it has one. -/
  | call (pos : Span) (scope : ScopeId) (namePos : Option Span)
  | structInit (pos : Span) (scope : ScopeId)
  | field (pos : Span) (scope : ScopeId)
  deriving DecidableEq, Repr

mutual

def Expr.stamps : Expr Span → List Stamp
  | .literal _ _ => []
  | .var _ p s x => [.var p s x]
  | .unary _ e _ => Expr.stamps e
  | .binary _ l r _ => Expr.stamps l ++ Expr.stamps r
  | .comparison _ l r _ => Expr.stamps l ++ Expr.stamps r
  | .cond c t e _ => Expr.stamps c ++ Expr.stamps t ++ Expr.stampsOpt e
  | .deref e _ => Expr.stamps e
  | .addressOf e _ => Expr.stamps e
  | .alloc _ e _ => Expr.stampsOpt e
  | .block b e p s => .block p s :: (Stmt.stampsAll b ++ Expr.stampsOpt e)
  | .call _ q as p s => .call p s (some q) :: Expr.stampsAll as
  | .callValue c as p s => .call p s none :: (Expr.stamps c ++ Expr.stampsAll as)
  | .structInit _ vs p s => .structInit p s :: Expr.stampsAll vs
  | .field e _ p s => .field p s :: Expr.stamps e
  | .cast e _ _ => Expr.stamps e

def Expr.stampsOpt : Option (Expr Span) → List Stamp
  | none => []
  | some e => Expr.stamps e

def Expr.stampsAll : List (Expr Span) → List Stamp
  | [] => []
  | e :: es => Expr.stamps e ++ Expr.stampsAll es

def Stmt.stamps : Stmt Span → List Stamp
  | .expr e => Expr.stamps e
  | .typeDecl _ t p s => [.typeDecl p s t]
  | .varDecl _ _ e p s x => .varDecl p s x :: Expr.stamps e
  | .funDecl _ _ b _ p s s' => .funDecl p s s' :: Expr.stampsOpt b
  | .ret e f p s => .ret p s f :: Expr.stamps e
  | .yield e _ => Expr.stamps e
  | .assign l r _ => Expr.stamps l ++ Expr.stamps r

def Stmt.stampsAll : List (Stmt Span) → List Stamp
  | [] => []
  | s :: ss => Stmt.stamps s ++ Stmt.stampsAll ss

end

def Program.stamps (P : Program Span) : List Stamp := Stmt.stampsAll P

end TypeInference
