import TypeInference.Program.Binding
import TypeInference.Program.Stamps

/-!
# The scoping rule

What a variable read denotes, said of the program text alone.

A read stands in regions one inside the other: the statement list of each block around it, the
formals of each function around it, and the statement list of the program. A region offers
candidates (`Region`). The functions and types of a statement list are candidates all through it,
wherever in it they are declared, and so are the formals of a function; a variable is a candidate
from the statement after its own on, so neither above it nor in its initializer. The innermost
region with a candidate of the name settles what the name denotes (`denoted?`): there the latest
variable goes before functions, types and formals, and of those the last one listed goes first.

`Program.reads` lists the reads of a program with the regions around each. A declaration is told
from others, of the same name and position even, by its place in the order in which symbols are
made, a region by its place in the order in which scopes are opened; `Expr.after` and its siblings
count both.
-/

namespace TypeInference

/-- The stamp is that of a variable read. -/
def Stamp.isRead : Stamp → Bool
  | .var .. => true
  | _ => false

namespace Lexical

/-! ## Regions -/

/-- A declaration: the symbol that it makes, and the place of this among all symbols. -/
abbrev Candidate := Symbol × SymbolId

/-- A region as it looks from a point inside it. -/
structure Region where
  scope : ScopeId
  /-- The functions and types of the statement list, or the formals, in order. -/
  listed : List Candidate
  /-- The variables of the statements before the point, in order. -/
  preceding : List Candidate

def Region.candidates (r : Region) : List Candidate := r.listed ++ r.preceding

/-- The last candidate of a list that has the name. -/
def lastNamed? (name : String) (ds : List Candidate) : Option SymbolId :=
  (ds.reverse.find? (·.1.name = name)).map Prod.snd

/-- The candidate of a region that a name denotes. -/
def Region.pick? (r : Region) (name : String) : Option SymbolId :=
  (lastNamed? name r.preceding).or (lastNamed? name r.listed)

/-- What a name denotes inside the regions, the innermost given first. -/
def denoted? (ρ : List Region) (name : String) : Option SymbolId :=
  ρ.findSome? fun r => r.pick? name

/-- A variable read, with the regions around it. -/
structure Read where
  name : String
  pos : Span
  region : Region
  /-- The regions around the innermost one, from the inside outward. -/
  outer : List Region

def Read.regions (q : Read) : List Region := q.region :: q.outer

/-- The stamp of a read that keeps to the rule. -/
def Read.stamp (q : Read) : Stamp := .var q.pos q.region.scope (denoted? q.regions q.name)

/-- The scopes of the regions lie in each other in the tree, each one level below the next; the last
is the root. -/
def Nested (T : ScopeTree) : List Region → Prop
  | [] => False
  | [r] => r.scope = ScopeTree.rootScope ∧ T.parent? r.scope = none ∧ T.level r.scope = 1
  | r :: q :: ρ =>
    T.parent? r.scope = some q.scope ∧ T.level r.scope = T.level q.scope + 1 ∧ Nested T (q :: ρ)

/-! ## Counting -/

/-- The number of scopes opened and of symbols made before some point. -/
structure Made where
  scopes : Nat
  symbols : Nat

def Made.scope (m : Made) : Made := { m with scopes := m.scopes + 1 }

def Made.declare (m : Made) (count : Nat) : Made := { m with symbols := m.symbols + count }

/-- The symbols of declarations that are made in one go. -/
def Made.number (m : Made) (xs : List Symbol) : List Candidate := xs.zipIdx m.symbols

end Lexical

open Lexical

/-- The symbol of the function or type that a statement declares. -/
def Stmt.listed? : Stmt Span → Option Symbol
  | .funDecl x _ _ t p _ _ => some ⟨x, .function, p, t.map Scheme.mono⟩
  | .typeDecl x t p _ => some ⟨x, .type, p, some (.mono (t.declaredAs x))⟩
  | _ => none

/-- The symbols of the functions and types that are declared directly in a list of statements. -/
def Stmt.listed (ts : List (Stmt Span)) : List Symbol := ts.filterMap Stmt.listed?

def Formal.symbol (f : Formal Span) : Symbol := ⟨f.name, .param, f.pos, none⟩

mutual

/-- What is made until an expression ends. -/
def Expr.after (m : Made) : Expr Span → Made
  | .literal .. | .var .. => m
  | .unary _ e _ | .deref e _ | .addressOf e _ | .field e _ _ _ | .cast e _ _ => Expr.after m e
  | .binary _ l r _ | .comparison _ l r _ => Expr.after (Expr.after m l) r
  | .cond c t e _ => Expr.afterOpt (Expr.after (Expr.after m c) t) e
  | .alloc _ e _ => Expr.afterOpt m e
  | .block b e _ _ => Expr.afterOpt (Stmt.afterAll (m.scope.declare (Stmt.listed b).length) b) e
  | .call _ _ as _ _ | .structInit _ as _ _ => Expr.afterAll m as
  | .callValue c as _ _ => Expr.afterAll (Expr.after m c) as

def Expr.afterOpt (m : Made) : Option (Expr Span) → Made
  | none => m
  | some e => Expr.after m e

def Expr.afterAll (m : Made) : List (Expr Span) → Made
  | [] => m
  | e :: es => Expr.afterAll (Expr.after m e) es

/-- What is made until a statement ends whose own function or type is made already. -/
def Stmt.after (m : Made) : Stmt Span → Made
  | .typeDecl .. => m
  | .expr e | .ret e _ _ _ | .yield e _ => Expr.after m e
  | .varDecl _ _ e _ _ _ => (Expr.after m e).declare 1
  | .funDecl _ fs b _ _ _ _ => Expr.afterOpt (m.scope.declare fs.length) b
  | .assign l r _ => Expr.after (Expr.after m l) r

def Stmt.afterAll (m : Made) : List (Stmt Span) → Made
  | [] => m
  | t :: ts => Stmt.afterAll (Stmt.after m t) ts

end

/-! ## Reads -/

/-- The variable that a statement declares. -/
def Stmt.declaredVar? (m : Made) : Stmt Span → Option Candidate
  | .varDecl x t e p _ _ =>
    some (⟨x, .variable, p, t.map Scheme.mono⟩, (Expr.after m e).symbols)
  | _ => none

namespace Lexical

/-- The region as it looks from behind a statement. -/
def Region.past (r : Region) (m : Made) (t : Stmt Span) : Region :=
  { r with preceding := r.preceding ++ (t.declaredVar? m).toList }

/-- The region as it looks from behind a list of statements. -/
def Region.pastAll (r : Region) (m : Made) : List (Stmt Span) → Region
  | [] => r
  | t :: ts => Region.pastAll (r.past m t) (Stmt.after m t) ts

/-- The region of a list of statements, as it looks from its beginning. -/
def ofStmts (m : Made) (scope : ScopeId) (ts : List (Stmt Span)) : Region :=
  ⟨scope, m.number (Stmt.listed ts), []⟩

/-- The region of the formals of a function. -/
def ofFormals (m : Made) (scope : ScopeId) (fs : List (Formal Span)) : Region :=
  ⟨scope, m.number (fs.map Formal.symbol), []⟩

end Lexical

mutual

/-- The reads of an expression in the region `r` inside the regions `ρ`. -/
def Expr.reads (r : Region) (ρ : List Region) (m : Made) : Expr Span → List Read
  | .literal .. => []
  | .var x p _ _ => [⟨x, p, r, ρ⟩]
  | .unary _ e _ | .deref e _ | .addressOf e _ | .field e _ _ _ | .cast e _ _ => Expr.reads r ρ m e
  | .binary _ a b _ | .comparison _ a b _ =>
    Expr.reads r ρ m a ++ Expr.reads r ρ (Expr.after m a) b
  | .cond c t e _ =>
    Expr.reads r ρ m c ++ Expr.reads r ρ (Expr.after m c) t ++
      Expr.readsOpt r ρ (Expr.after (Expr.after m c) t) e
  | .alloc _ e _ => Expr.readsOpt r ρ m e
  | .block b e _ _ =>
    let inner := ofStmts m m.scopes b
    let m' := m.scope.declare (Stmt.listed b).length
    Stmt.readsAll inner (r :: ρ) m' b ++
      Expr.readsOpt (inner.pastAll m' b) (r :: ρ) (Stmt.afterAll m' b) e
  | .call _ _ as _ _ | .structInit _ as _ _ => Expr.readsAll r ρ m as
  | .callValue c as _ _ => Expr.reads r ρ m c ++ Expr.readsAll r ρ (Expr.after m c) as

def Expr.readsOpt (r : Region) (ρ : List Region) (m : Made) : Option (Expr Span) → List Read
  | none => []
  | some e => Expr.reads r ρ m e

def Expr.readsAll (r : Region) (ρ : List Region) (m : Made) : List (Expr Span) → List Read
  | [] => []
  | e :: es => Expr.reads r ρ m e ++ Expr.readsAll r ρ (Expr.after m e) es

/-- The reads of a statement of the region `r`. -/
def Stmt.reads (r : Region) (ρ : List Region) (m : Made) : Stmt Span → List Read
  | .typeDecl .. => []
  | .expr e | .varDecl _ _ e _ _ _ | .ret e _ _ _ | .yield e _ => Expr.reads r ρ m e
  | .funDecl _ fs b _ _ _ _ =>
    Expr.readsOpt (ofFormals m m.scopes fs) (r :: ρ) (m.scope.declare fs.length) b
  | .assign a b _ => Expr.reads r ρ m a ++ Expr.reads r ρ (Expr.after m a) b

def Stmt.readsAll (r : Region) (ρ : List Region) (m : Made) : List (Stmt Span) → List Read
  | [] => []
  | t :: ts =>
    Stmt.reads r ρ m t ++ Stmt.readsAll (r.past m t) ρ (Stmt.after m t) ts

end

/-- The reads of a program, in reading order. -/
def Program.reads (P : Program Span) : List Read :=
  let start : Made := ⟨1, 0⟩
  Stmt.readsAll (ofStmts start ScopeTree.rootScope P) [] (start.declare (Stmt.listed P).length) P

end TypeInference
