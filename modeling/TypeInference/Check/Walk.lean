import TypeInference.Check.State

/-!
# The walk over a program

Each construct is given a type and records what it demands. The obligations are solved at the end of
every function body and of every top-level statement. A function declared in the root scope is
generalized over what its surroundings do not fix.
-/

namespace TypeInference

namespace Check

/-! ## Types of constructs that need no walk -/

def literalType : Literal → Ty
  | .int _ => .int
  | .text _ => .string
  | .char _ => .char
  | .bool _ => .bool
  | .unit => .unit

def operandType : UnaryOp → Ty
  | .neg => .int
  | .not => .bool

/-- The traits that a comparison asks of its operands. -/
def comparisonTraits : CompareOp → List Trait
  | .eq | .ne => [.eq]
  | .lt | .gt => [.ord]
  | .le | .ge => [.eq, .ord]

/-- The result type of the function that a `return` is stamped with. -/
def returnType (function : Option String) (pos : Span) (scope : ScopeId) : CheckM Ty := do
  match function with
  | none => Action.abort (.returnOutsideFunction pos)
  | some name =>
    match (← get).returns.find? fun r => r.1 == name with
    | some (_, result) => return result
    | none =>
      let declared := (← symbolScheme (← lookup scope name pos)).ty
      match ← readTable fun T => T.checkedLeader declared with
      | .fn _ result => return result
      | other => Action.abort (.returnToNonFunction pos name other)

/-- The parameters and the result of a callee of type `ty` that is called with `count` arguments, or
nothing if its type is known and no function. -/
def calleeShape (name : String) (pos : Span) (count : Nat) (ty : Ty) :
    CheckM (Option (List Ty × Ty)) := do
  match ← readTable fun T => T.checkedLeader ty with
  | .fn params result =>
    if params.length = count then return some (params, result)
    else Action.fail (.argumentCountMismatch name params.length count pos)
  | .var _ => do
    let params ← (List.replicate count ()).mapM fun _ => fresh
    let result ← fresh
    demandEqual (.fn params result) ty (.callee pos)
    return some (params, result)
  | _ => return none

/-- The layout that a struct value names, if it takes `count` values. -/
def initLayout (name : String) (pos : Span) (scope : ScopeId) (count : Nat) :
    CheckM (Option String × List (String × Ty)) := do
  let declared := (← symbolScheme (← lookup scope name pos)).ty
  match ← readTable fun T => T.checkedLeader declared with
  | .struct declaredName fields =>
    if fields.length = count then return (declaredName, fields)
    else Action.fail (.structArityMismatch name fields.length count pos)
  | other =>
    let t ← readTable fun T => T.checkedResolve other
    Action.fail (.notAStruct name t pos)

/-- Give each formal a variable and tie it to the formal's symbol. -/
def bindFormals (bodyScope : ScopeId) : List (Formal Span) → CheckM (List Ty)
  | [] => return []
  | f :: fs => do
    let param ← fresh
    let x ← lookup bodyScope f.name f.pos
    note (.formal f.pos x)
    let declared := (← symbolScheme x).ty
    demandEqual declared param (.param f.pos)
    return param :: (← bindFormals bodyScope fs)

/-- What is known of a function before its body is walked: its symbol, its type and its result. -/
def enterFunction (name : String) (formals : List (Formal Span)) (pos : Span)
    (scope bodyScope : ScopeId) : CheckM (SymbolId × Ty × Ty) := do
  let params ← bindFormals bodyScope formals
  let x ← lookup scope name pos
  let result ← fresh
  let declared ← onTable (instantiate (← symbolScheme x))
  demandEqual (.fn params result) declared (.fnSignature pos)
  note (.enter pos x result)
  modify fun s => { s with returns := (name, result) :: s.returns }
  return (x, .fn params result, result)

/-- Close a function whose body has type `bodyTy`: solve what its body demands and, in the root
scope, generalize it. -/
def leaveFunction (opts : CheckOptions) (name : String) (pos bodyPos : Span) (scope : ScopeId)
    (x : SymbolId) (fnTy result bodyTy : Ty) : CheckM Ty := do
  modify fun s => { s with returns := s.returns.tail }
  note (.leave pos)
  demandEqual result bodyTy (.fnBody pos bodyPos)
  solveQueue opts
  if (← Action.require ((← get).scopes.requireScope scope)).level = 1 then
    let env ← envVars scope x
    let σ ← readTable fun T => T.checkedGeneralize fnTy env
    modify fun s =>
      { s with scopes := s.scopes.setScheme x σ, schemes := s.schemes.insert name σ }
  let t ← readTable fun T => T.checkedResolve fnTy
  record pos t
  return t

/-! ## The walk -/

mutual

/-- The type of an expression. -/
def expr (opts : CheckOptions) : Expr Span → CheckM Ty
  | .literal value pos => do
    record pos (literalType value)
    return literalType value
  | .var name pos _ symbol => do
    match symbol with
    | none => Action.fail (.unboundName name pos)
    | some x =>
      let t ← onTable (instantiate (← symbolScheme x))
      note (.read pos x t)
      return t
  | .unary op operand pos => do
    let t ← expr opts operand
    demandEqual (operandType op) t (.unaryOp pos operand.pos)
    return t
  | .binary _ left right pos => do
    let t ← expr opts left
    let u ← expr opts right
    demandEqual .int u (.binOp pos right.pos)
    return t
  | .comparison op left right pos => do
    let t ← expr opts left
    let u ← expr opts right
    (comparisonTraits op).forM fun c => demand (.has t c) (.comparison pos)
    demandEqual t u (.comparison pos)
    return .bool
  | .cond condition thenBranch elseBranch pos => do
    let t ← expr opts condition
    demandEqual .bool t (.condition condition.pos)
    let t ← expr opts thenBranch
    let u ← optional opts elseBranch
    demandEqual t u (.ifBranches pos thenBranch.pos (elseBranch.map Expr.pos))
    return t
  | .deref operand pos => do
    let t ← expr opts operand
    let pointee ← fresh
    demandEqual (.ptr pointee) t (.deref pos)
    readTable fun T => T.checkedLeader pointee
  | .addressOf operand _ => do return .ptr (← expr opts operand)
  | .alloc ty none _ => return ty
  | .alloc ty (some size) _ => do
    let t ← expr opts size
    demandEqual .int t (.allocSize size.pos)
    return ty
  | .block body final _ _ => do
    stmts opts body
    optional opts final
  | .call name namePos args pos scope => do
    let T := (← get).scopes
    let _ ← Action.require (T.requireScope scope)
    match T.find? scope name with
    | none => Action.fail (.unboundName name namePos)
    | some home =>
      let x ← lookup home name namePos
      let t ← onTable (instantiate (← symbolScheme x))
      note (.call pos x t)
      demand (.has t .callable) (.callee pos)
      match ← calleeShape name pos args.length t with
      | some (params, result) =>
        arguments opts pos 0 params args
        return result
      | none =>
        walk opts args
        fresh
  | .callValue _ _ pos _ => Action.abort (.computedCallee pos)
  | .structInit name values pos scope => do
    let (declaredName, fields) ← initLayout name pos scope values.length
    fieldValues opts pos fields values
    return .struct declaredName fields
  | .field base name pos scope => do
    let t ← expr opts base
    let bound ← readTable fun T => T.checkedLeader t
    let fieldTy ← fresh
    demand (.has bound (.hasField name fieldTy scope)) (.fieldAccess pos)
    record pos fieldTy
    note (.field pos fieldTy)
    return fieldTy
  | .cast operand target pos => do
    let t ← expr opts operand
    match target with
    | none => Action.abort (.castWithoutTarget pos)
    | some target =>
      let bound ← readTable fun T => T.checkedLeader t
      demand (.has bound (.convertibleTo target)) (.cast pos)
      return target

/-- The type of an expression that may be missing; a missing one is `unit`. -/
def optional (opts : CheckOptions) : Option (Expr Span) → CheckM Ty
  | none => return .unit
  | some e => expr opts e

/-- Walk expressions for what they record. -/
def walk (opts : CheckOptions) : List (Expr Span) → CheckM Unit
  | [] => return ()
  | e :: es => do
    let _ ← expr opts e
    walk opts es

/-- The arguments of a call from position `index` on. -/
def arguments (opts : CheckOptions) (call : Span) (index : Nat) :
    List Ty → List (Expr Span) → CheckM Unit
  | param :: params, arg :: args => do
    let t ← expr opts arg
    demandEqual param t (.fnArg call arg.pos index)
    arguments opts call (index + 1) params args
  | _, _ => return ()

/-- The values of a struct, field by field. -/
def fieldValues (opts : CheckOptions) (init : Span) :
    List (String × Ty) → List (Expr Span) → CheckM Unit
  | (name, ty) :: fields, value :: values => do
    let t ← expr opts value
    demandEqual ty t (.structField init value.pos name)
    fieldValues opts init fields values
  | _, _ => return ()

/-- The type of a statement: that of a function for its declaration, else `unit`. -/
def stmt (opts : CheckOptions) : Stmt Span → CheckM Ty
  | .expr e => do
    let _ ← expr opts e
    return .unit
  | .typeDecl name _ pos scope => do
    let x ← lookup scope name pos
    note (.typeDecl pos x)
    record pos (← symbolScheme x).ty
    return .unit
  | .varDecl name _ value pos scope symbol => do
    let x ← match symbol with
      | some x => pure x
      | none => lookup scope name pos
    let t := (← symbolScheme x).ty
    let u ← expr opts value
    demandEqual t u (.letBinding pos value.pos)
    return .unit
  | .funDecl _ _ none _ _ _ _ => return .unit
  | .funDecl name formals (some body) _ pos scope bodyScope => do
    let outer := (← get).queue
    modify fun s => { s with queue := [] }
    let (x, fnTy, result) ← enterFunction name formals pos scope bodyScope
    let bodyTy ← expr opts body
    let t ← leaveFunction opts name pos body.pos scope x fnTy result bodyTy
    modify fun s => { s with queue := outer }
    return t
  | .ret value function pos scope => do
    let result ← returnType function pos scope
    note (.ret pos result)
    let t ← expr opts value
    demandEqual result t (.ret pos value.pos)
    return .unit
  | .yield value _ => do
    let _ ← expr opts value
    return .unit
  | .assign target value _ => do
    let u ← expr opts value
    let t ← expr opts target
    demandEqual t u (.assignment target.pos value.pos)
    return .unit

def stmts (opts : CheckOptions) : List (Stmt Span) → CheckM Unit
  | [] => return ()
  | s :: ss => do
    let _ ← stmt opts s
    stmts opts ss

end

/-- The type of a top-level statement, once all that it demands is solved. -/
def topLevel (opts : CheckOptions) (s : Stmt Span) : CheckM Ty := do
  let t ← stmt opts s
  if ¬ (← get).queue.isEmpty then solveQueue opts
  readTable fun T => T.checkedResolve t

end Check

end TypeInference
