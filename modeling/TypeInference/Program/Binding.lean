import TypeInference.Program.Basic

/-!
# Binding

`Program.bind` declares every symbol of a program in a fresh tree of scopes and stamps every node.
The functions and types of a list of statements are declared before its first statement is bound, so
that they can be used above their declaration. A variable is declared after its initializer, and a
read is stamped with the symbol that its name denotes at that point.
-/

namespace TypeInference

/-- A struct body without a name takes the name it is declared under. -/
def Ty.declaredAs (name : String) : Ty → Ty
  | .struct none fields => .struct (some name) fields
  | t => t

namespace ScopeTree

/-- Declare the function or type that a statement introduces for its whole list. -/
def hoist (scope : ScopeId) (T : ScopeTree) : Stmt Span → ScopeTree
  | .funDecl name _ _ hint p _ _ =>
    (T.declare scope ⟨name, .function, p, hint.map Scheme.mono⟩).2
  | .typeDecl name body p _ =>
    (T.declare scope ⟨name, .type, p, some (Scheme.mono (body.declaredAs name))⟩).2
  | _ => T

/-- Declare the functions and types of a list of statements. -/
def hoistAll (scope : ScopeId) (stmts : List (Stmt Span)) (T : ScopeTree) : ScopeTree :=
  stmts.foldl (hoist scope) T

def declareFormal (scope : ScopeId) (T : ScopeTree) (f : Formal Span) : ScopeTree :=
  (T.declare scope ⟨f.name, .param, f.pos, none⟩).2

def declareFormals (scope : ScopeId) (formals : List (Formal Span)) (T : ScopeTree) : ScopeTree :=
  formals.foldl (declareFormal scope) T

end ScopeTree

mutual

/-- Bind an expression that stands in `scope`, inside the function `owner` if any. -/
def Expr.bind (owner : Option String) (scope : ScopeId) : Expr Span → StateM ScopeTree (Expr Span)
  | .literal v p => return .literal v p
  | .var x p _ _ => do return .var x p scope ((← get).lookup? scope x)
  | .unary op e p => do return .unary op (← Expr.bind owner scope e) p
  | .binary op l r p => do
    let l ← Expr.bind owner scope l
    let r ← Expr.bind owner scope r
    return .binary op l r p
  | .comparison op l r p => do
    let l ← Expr.bind owner scope l
    let r ← Expr.bind owner scope r
    return .comparison op l r p
  | .cond c t e p => do
    let c ← Expr.bind owner scope c
    let t ← Expr.bind owner scope t
    let e ← Expr.bindOpt owner scope e
    return .cond c t e p
  | .deref e p => do return .deref (← Expr.bind owner scope e) p
  | .addressOf e p => do return .addressOf (← Expr.bind owner scope e) p
  | .alloc t e p => do return .alloc t (← Expr.bindOpt owner scope e) p
  | .block b e p _ => do
    let inner ← modifyGet fun T => T.newScope scope
    modify (ScopeTree.hoistAll inner b)
    let b ← Stmt.bindAll owner inner b
    let e ← Expr.bindOpt owner inner e
    return .block b e p inner
  | .call x q as p _ => do return .call x q (← Expr.bindAll owner scope as) p scope
  | .callValue c as p _ => do
    let c ← Expr.bind owner scope c
    let as ← Expr.bindAll owner scope as
    return .callValue c as p scope
  | .structInit x vs p _ => do return .structInit x (← Expr.bindAll owner scope vs) p scope
  | .field e x p _ => do return .field (← Expr.bind owner scope e) x p scope
  | .cast e t p => do return .cast (← Expr.bind owner scope e) t p

def Expr.bindOpt (owner : Option String) (scope : ScopeId) :
    Option (Expr Span) → StateM ScopeTree (Option (Expr Span))
  | none => return none
  | some e => do return some (← Expr.bind owner scope e)

def Expr.bindAll (owner : Option String) (scope : ScopeId) :
    List (Expr Span) → StateM ScopeTree (List (Expr Span))
  | [] => return []
  | e :: es => do
    let e ← Expr.bind owner scope e
    return e :: (← Expr.bindAll owner scope es)

/-- Bind a statement of a list whose functions and types are declared in `scope` already. -/
def Stmt.bind (owner : Option String) (scope : ScopeId) : Stmt Span → StateM ScopeTree (Stmt Span)
  | .expr e => do return .expr (← Expr.bind owner scope e)
  | .typeDecl x t p _ => return .typeDecl x (t.declaredAs x) p scope
  | .varDecl x t e p _ _ => do
    let e ← Expr.bind owner scope e
    let y ← modifyGet fun T => T.declare scope ⟨x, .variable, p, t.map Scheme.mono⟩
    return .varDecl x t e p scope (some y)
  | .funDecl x fs b t p _ _ => do
    let inner ← modifyGet fun T => T.newScope scope
    modify (ScopeTree.declareFormals inner fs)
    let b ← Expr.bindOpt (some x) inner b
    return .funDecl x fs b t p scope inner
  | .ret e _ p _ => do return .ret (← Expr.bind owner scope e) owner p scope
  | .yield e p => do return .yield (← Expr.bind owner scope e) p
  | .assign l r p => do
    let l ← Expr.bind owner scope l
    let r ← Expr.bind owner scope r
    return .assign l r p

def Stmt.bindAll (owner : Option String) (scope : ScopeId) :
    List (Stmt Span) → StateM ScopeTree (List (Stmt Span))
  | [] => return []
  | s :: ss => do
    let s ← Stmt.bind owner scope s
    return s :: (← Stmt.bindAll owner scope ss)

end

/-- Stamp a program and build the tree of its scopes. -/
def Program.bind (P : Program Span) : Program Span × ScopeTree :=
  (Stmt.bindAll none ScopeTree.rootScope P).run
    (ScopeTree.hoistAll ScopeTree.rootScope P ScopeTree.initial)

end TypeInference
