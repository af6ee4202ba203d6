import TypeInference.Polymorphism
import TypeInference.Solve

/-!
# Sessions

A session is a sequence of operations on one table of variables, one tree of scopes, one table of
traits and one queue of obligations. Schemes and substitutions can be kept under a name. A type
error is an answer like any other, and what was unified before it stays; a fault ends the session.
-/

namespace TypeInference

structure Session where
  table : VarTable
  scopes : ScopeTree
  traits : TraitTable
  queue : List Obligation
  /-- Schemes kept by name. -/
  saved : Assoc String Scheme
  /-- Substitutions kept by name. -/
  known : Assoc String KnownParams

namespace Session

def initial : Session := ⟨∅, .initial, .builtin, [], ∅, ∅⟩

/-- A scheme, written out or kept earlier under a name. -/
inductive SchemeRef where
  | written (s : Scheme)
  | saved (name : String)

inductive Op where
  | fresh (count : Nat)
  | varCount
  | unify (a b : Ty) (origin : Origin)
  | leader (t : Ty)
  | resolve (t : Ty)
  | occurs (v : TyVar) (t : Ty)
  | freeVars (t : Ty)
  | schemeFreeVars (s : SchemeRef)
  | resolveScheme (s : SchemeRef)
  | generalize (t : Ty) (env : List TyVar) (save : Option String)
  | instantiate (s : SchemeRef)
  | instantiateWith (s : SchemeRef) (known : String)
  | newScope (parent : ScopeId)
  | declare (scope : ScopeId) (symbol : Symbol)
  | retrieve (scope : ScopeId) (name : String)
  | find (scope : ScopeId) (name : String)
  | level (scope : ScopeId)
  | ancestors (scope : ScopeId)
  | visible (scope : ScopeId)
  | scope (s : ScopeId)
  | symbol (x : SymbolId)
  | setType (x : SymbolId) (s : Scheme)
  | counts
  | registerEq (name : String)
  | registerOrd (name : String)
  | registerConversion (source target : String)
  | eq (t : Ty)
  | ord (t : Ty)
  | converts (source target : Ty)
  | push (c : Constraint) (origin : Origin)
  | queue
  | clear
  | take
  | solve (maxPasses : Nat)

inductive Answer where
  | done
  | error (e : TypeError)
  | vars (vs : List TyVar)
  | number (n : Nat)
  | numbers (ns : List Nat)
  | optional (n : Option Nat)
  | truth (b : Bool)
  | type (t : Ty)
  | scheme (s : Scheme)
  /-- An instantiated type and the substitution afterwards, by variable. -/
  | instantiated (t : Ty) (known : List (TyVar × Ty))
  | scope (s : Scope)
  | symbol (x : Symbol)
  | queue (length : Nat) (isEmpty : Bool)
  | obligations (os : List Obligation)
  /-- A name under which no scheme is kept. -/
  | unknownName (name : String)

/-- Mint a number of variables. -/
def mintMany : Nat → VarTable → List TyVar × VarTable
  | 0, T => ([], T)
  | n + 1, T =>
    let (v, T) := T.mint
    let (vs, T) := mintMany n T
    (v :: vs, T)

/-- Answer with what an action on the table says, keeping the table it leaves. -/
def onTable (S : Session) {α : Type} (answer : α → Answer) (x : Action VarTable α) :
    Except Fault (Answer × Session) :=
  match x.run S.table with
  | (.ok a, T) => .ok (answer a, { S with table := T })
  | (.error (.error e), T) => .ok (.error e, { S with table := T })
  | (.error (.fault f), _) => .error f

/-- Answer about the scheme that is meant by a reference. -/
def onScheme (S : Session) (r : SchemeRef) (k : Scheme → Except Fault (Answer × Session)) :
    Except Fault (Answer × Session) :=
  match r with
  | .written s => k s
  | .saved name =>
    match S.saved.get? name with
    | some s => k s
    | none => .ok (.unknownName name, S)

/-- Do one operation. -/
def step (S : Session) : Op → Except Fault (Answer × Session)
  | .fresh count =>
    let (vs, T) := mintMany count S.table
    return (.vars vs, { S with table := T })
  | .varCount => return (.number S.table.size, S)
  | .unify a b origin => S.onTable (fun _ => .done) (TypeInference.unify a b origin)
  | .leader t => do return (.type (← S.table.checkedLeader t), S)
  | .resolve t => do return (.type (← S.table.checkedResolve t), S)
  | .occurs v t => do return (.truth (← S.table.checkedOccurs v t), S)
  | .freeVars t => do return (.numbers (← S.table.checkedFreeVars t), S)
  | .schemeFreeVars r => S.onScheme r fun s => do
    return (.numbers (← S.table.checkedSchemeFreeVars s), S)
  | .resolveScheme r => S.onScheme r fun s => do
    return (.scheme (← S.table.checkedResolveScheme s), S)
  | .generalize t env save => do
    let s ← S.table.checkedGeneralize t env
    return (.scheme s, match save with
      | some name => { S with saved := S.saved.insert name s }
      | none => S)
  | .instantiate r => S.onScheme r fun s => S.onTable .type (TypeInference.instantiate s)
  | .instantiateWith r name => S.onScheme r fun s =>
    let known := (S.known.get? name).getD ∅
    match (TypeInference.instantiateWith s).run (S.table, known) with
    | (.ok t, T, known) =>
      let sorted := known.toList.mergeSort fun a b => a.1 ≤ b.1
      .ok (.instantiated t sorted, { S with table := T, known := S.known.insert name known })
    | (.error (.error e), T, known) =>
      .ok (.error e, { S with table := T, known := S.known.insert name known })
    | (.error (.fault f), _) => .error f
  | .newScope parent => do
    let _ ← S.scopes.requireScope parent
    let (s, scopes) := S.scopes.newScope parent
    return (.number s, { S with scopes })
  | .declare scope symbol => do
    let _ ← S.scopes.requireScope scope
    let (x, scopes) := S.scopes.declare scope symbol
    return (.number x, { S with scopes })
  | .retrieve scope name => do
    let _ ← S.scopes.requireScope scope
    return (.optional (S.scopes.lookup? scope name), S)
  | .find scope name => do
    let _ ← S.scopes.requireScope scope
    return (.optional (S.scopes.find? scope name), S)
  | .level scope => do
    let _ ← S.scopes.requireScope scope
    return (.number (S.scopes.level scope), S)
  | .ancestors scope => do
    let _ ← S.scopes.requireScope scope
    return (.numbers (S.scopes.ancestors scope), S)
  | .visible scope => do
    let _ ← S.scopes.requireScope scope
    return (.numbers ((S.scopes.visible scope).mergeSort fun x y => x ≤ y), S)
  | .scope s => do
    return (.scope (← S.scopes.requireScope s), S)
  | .symbol x => do
    return (.symbol (← S.scopes.requireSymbol x), S)
  | .setType x s => do
    let _ ← S.scopes.requireSymbol x
    return (.done, { S with scopes := S.scopes.setScheme x s })
  | .counts => return (.numbers [S.scopes.scopes.size, S.scopes.symbols.size], S)
  | .registerEq name => return (.done, { S with traits := S.traits.registerEq name })
  | .registerOrd name => return (.done, { S with traits := S.traits.registerOrd name })
  | .registerConversion source target =>
    return (.done, { S with traits := S.traits.registerConversion source target })
  | .eq t => return (.truth (S.traits.satisfiesEq t), S)
  | .ord t => return (.truth (S.traits.satisfiesOrd t), S)
  | .converts source target => return (.truth (S.traits.converts source target), S)
  | .push c origin =>
    let queue := S.queue ++ [⟨c, origin⟩]
    return (.number queue.length, { S with queue })
  | .queue => return (.queue S.queue.length S.queue.isEmpty, S)
  | .clear => return (.done, { S with queue := [] })
  | .take => return (.obligations S.queue, { S with queue := [] })
  | .solve maxPasses =>
    { S with queue := [] }.onTable (fun _ => .done)
      (TypeInference.solve ⟨S.scopes, S.traits⟩ maxPasses S.queue)

/-- Do operations in turn and pass over their answers, faults apart. -/
def runAll (S : Session) (ops : List Op) : Except Fault Session :=
  ops.foldlM (fun S op => return (← S.step op).2) S

/-- Do operations in turn. The last answer is a fault if one ended the session. -/
def run (S : Session) : List Op → List (Except Fault Answer) × Session
  | [] => ([], S)
  | op :: ops =>
    match S.step op with
    | .error f => ([.error f], S)
    | .ok (a, S) =>
      let (as, S) := S.run ops
      (.ok a :: as, S)

end Session

end TypeInference
