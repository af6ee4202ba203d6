import TypeInference.Assoc
import TypeInference.Fault
import TypeInference.Scheme
import TypeInference.Span

/-!
# Scopes and symbols

A `ScopeTree` holds the scopes of a program and every symbol declared in them, both numbered from
zero in order of creation. Scope zero is the root, at level one. A look-up walks from a scope
outward through its parents and takes the first binding of the name.

The operations are total: they treat an id that no scope or symbol has as an empty scope or as no
symbol at all. `requireScope` and `requireSymbol` are the checks that a caller with an unproven id
makes first.
-/

namespace TypeInference

/-- A scope, by its place in the order of creation. -/
abbrev ScopeId := Nat

/-- A symbol, by its place in the order of declaration. -/
abbrev SymbolId := Nat

inductive SymbolKind where
  | variable
  | param
  | function
  | type
  deriving DecidableEq, Repr, Inhabited

/-- A declared name. Its slot `scheme` is empty until a type is written or inferred for it. -/
structure Symbol where
  name : String
  kind : SymbolKind
  span : Span
  scheme : Option Scheme
  deriving Repr, Inhabited

structure Scope where
  parent : Option ScopeId
  /-- The number of scopes from here to the root, both counted. -/
  level : Nat
  bindings : Assoc String SymbolId
  deriving Repr, Inhabited

structure ScopeTree where
  scopes : Array Scope
  symbols : Array Symbol
  deriving Repr, Inhabited

namespace ScopeTree

/-- The scope of the whole program. -/
def rootScope : ScopeId := 0

/-- The tree that holds the root scope and nothing else. -/
def initial : ScopeTree := ⟨#[⟨none, 1, ∅⟩], #[]⟩

/-! ## Access -/

def scope? (T : ScopeTree) (s : ScopeId) : Option Scope := T.scopes[s]?

def symbol? (T : ScopeTree) (x : SymbolId) : Option Symbol := T.symbols[x]?

def parent? (T : ScopeTree) (s : ScopeId) : Option ScopeId := (T.scope? s).bind Scope.parent

def level (T : ScopeTree) (s : ScopeId) : Nat := ((T.scope? s).map Scope.level).getD 0

def bindings (T : ScopeTree) (s : ScopeId) : Assoc String SymbolId :=
  ((T.scope? s).map Scope.bindings).getD ∅

/-- The type written or inferred for a symbol. -/
def scheme? (T : ScopeTree) (x : SymbolId) : Option Scheme := (T.symbol? x).bind Symbol.scheme

/-- The scope of an id, or the fault of using an id that no scope has. -/
def requireScope (T : ScopeTree) (s : ScopeId) : Except Fault Scope :=
  match T.scope? s with
  | some c => .ok c
  | none => .error (.outOfBounds T.scopes.size s)

/-- The symbol of an id, or the fault of using an id that no symbol has. -/
def requireSymbol (T : ScopeTree) (x : SymbolId) : Except Fault Symbol :=
  match T.symbol? x with
  | some y => .ok y
  | none => .error (.outOfBounds T.symbols.size x)

/-! ## Look-up -/

/-- At most `fuel` scopes on the way from `s` to the root. -/
def ancestorsFrom (T : ScopeTree) : Nat → ScopeId → List ScopeId
  | 0, _ => []
  | fuel + 1, s =>
    match T.parent? s with
    | none => [s]
    | some p => s :: T.ancestorsFrom fuel p

/-- `s`, its parent, and so on to the root. No way to the root is longer than the tree has
scopes (a parent is older than its child). -/
def ancestors (T : ScopeTree) (s : ScopeId) : List ScopeId := T.ancestorsFrom T.scopes.size s

/-- The nearest scope from `s` outward that binds `name` itself. -/
def find? (T : ScopeTree) (s : ScopeId) (name : String) : Option ScopeId :=
  (T.ancestors s).find? fun a => (T.bindings a).contains name

/-- The symbol that `name` denotes in `s`. -/
def lookup? (T : ScopeTree) (s : ScopeId) (name : String) : Option SymbolId :=
  (T.find? s name).bind fun a => (T.bindings a).get? name

/-- Every symbol bound in `s` or around it, shadowed ones included. -/
def visible (T : ScopeTree) (s : ScopeId) : List SymbolId :=
  (T.ancestors s).flatMap fun a => (T.bindings a).values

/-! ## Growth -/

/-- Open a scope inside `parent`, one level deeper. -/
def newScope (T : ScopeTree) (parent : ScopeId) : ScopeId × ScopeTree :=
  (T.scopes.size, { T with scopes := T.scopes.push ⟨some parent, T.level parent + 1, ∅⟩ })

/-- Declare a name in `s`; an earlier binding of it there is lost to look-up. -/
def declare (T : ScopeTree) (s : ScopeId) (x : Symbol) : SymbolId × ScopeTree :=
  (T.symbols.size,
    { scopes := T.scopes.modify s fun c =>
        { c with bindings := c.bindings.insert x.name T.symbols.size }
      symbols := T.symbols.push x })

/-- Fill or replace the slot of a symbol. -/
def setScheme (T : ScopeTree) (x : SymbolId) (σ : Scheme) : ScopeTree :=
  { T with symbols := T.symbols.modify x fun y => { y with scheme := some σ } }

/-! ## What growth leaves alone -/

@[simp] theorem symbols_newScope (T : ScopeTree) (parent : ScopeId) :
    (T.newScope parent).2.symbols = T.symbols := rfl

@[simp] theorem size_scopes_declare (T : ScopeTree) (s : ScopeId) (x : Symbol) :
    (T.declare s x).2.scopes.size = T.scopes.size := by
  simp [declare]

@[simp] theorem scopes_setScheme (T : ScopeTree) (x : SymbolId) (σ : Scheme) :
    (T.setScheme x σ).scopes = T.scopes := rfl

@[simp] theorem size_symbols_setScheme (T : ScopeTree) (x : SymbolId) (σ : Scheme) :
    (T.setScheme x σ).symbols.size = T.symbols.size := by
  simp [setScheme]

end ScopeTree

end TypeInference
