import TypeInference.Check.Walk
import TypeInference.Proofs.Action
import TypeInference.Proofs.Check.Nodes
import TypeInference.Ty.Lemmas

/-!
# What the walk over a program keeps

An `Invariant` says what is to hold of every state of a walk, how a state is related to earlier
ones, and what is to be known of the variables in the types that the walk handles. `Rules` lists
what has to be shown of the single things that the walk does, one field for each; `Rules.expr` and
`Rules.stmt` put them together along the syntax. A construct that only combines what its parts give
needs no field.
-/

namespace TypeInference

/-- The scope from which a constraint looks up a name. -/
def Constraint.scope? : Constraint → Option ScopeId
  | .has _ (.hasField _ _ scope) => some scope
  | _ => none

/-- The position and the symbol of a look-up, and the kind of the declaration whose own symbol it
was to be, or none for a callee. -/
def Event.looked? : Event → Option (Option SymbolKind × Span × SymbolId)
  | .call p x _ => some (none, p, x)
  | .typeDecl p x => some (some .type, p, x)
  | .formal p x => some (some .param, p, x)
  | .enter p x _ => some (some .function, p, x)
  | _ => none

namespace Check

/-- What is kept along a walk. -/
structure Invariant where
  inv : CheckState → Prop
  /-- How the state at some point is related to the state at a later one. -/
  later : CheckState → CheckState → Prop
  /-- How the state at some point is related to the one in which the walk stops with an error. -/
  failed : CheckState → TypeError → CheckState → Prop
  fault : Fault → Prop
  /-- What is known of the variables in the types handled. -/
  goodVar : CheckState → TyVar → Prop
  /-- What the program promises of its nodes, each in the innermost function given. -/
  ok : Option String → Node → Prop
  /-- What the program promises of the scopes it mentions. -/
  okScope : ScopeId → Prop
  /-- What the program promises of the positions its nodes carry. -/
  okPos : Span → Prop

namespace Invariant

variable (I : Invariant)

/-- The origin points at a position as promised. -/
def okOrigin (o : Origin) : Prop := ∃ p, o.span? = some p ∧ I.okPos p

/-- The error points at a position as promised. -/
def okError (e : TypeError) : Prop := ∃ p, e.span? = some p ∧ I.okPos p

def good (s : CheckState) (t : Ty) : Prop := ∀ v ∈ t.occurrences, I.goodVar s v

/-- The invariant, where the innermost open function has the name `owner`. -/
structure At (owner : Option String) (s : CheckState) : Prop where
  inv : I.inv s
  owner : s.returns.head?.map Prod.fst = owner

/-- Started in `s`, the action keeps the invariant and ends with `Q`, or stops as is allowed. -/
def Keeps {α : Type} (s : CheckState) (x : CheckM α) (Q : α → CheckState → Prop) : Prop :=
  x.Ends s (fun a s' => I.inv s' ∧ I.later s s' ∧ Q a s') (I.failed s) I.fault

variable {I}

theorem Keeps.imp {α : Type} {s : CheckState} {x : CheckM α} {Q Q' : α → CheckState → Prop}
    (h : I.Keeps s x Q) (hQ : ∀ a s', I.inv s' → I.later s s' → Q a s' → Q' a s') :
    I.Keeps s x Q' :=
  Action.Ends.mono h (fun a s' hs => ⟨hs.1, hs.2.1, hQ a s' hs.1 hs.2.1 hs.2.2⟩) (fun _ _ => id)
    fun _ => id

end Invariant

/-! ## Pieces of the walk -/

/-- The type of a read of `x`. -/
def readSymbol (pos : Span) (x : SymbolId) : CheckM Ty := do
  let t ← onTable (instantiate (← symbolScheme x))
  note (.read pos x t)
  return t

/-- The type of a callee whose name is bound in `home`. -/
def calleeSymbol (name : String) (namePos pos : Span) (home : ScopeId) : CheckM Ty := do
  let x ← lookup home name namePos
  let t ← onTable (instantiate (← symbolScheme x))
  note (.call pos x t)
  return t

/-- The type in the slot of a declared variable. -/
def variableType (name : String) (pos : Span) (scope : ScopeId) (symbol : Option SymbolId) :
    CheckM Ty := do
  let x ← match symbol with
    | some x => pure x
    | none => lookup scope name pos
  return (← symbolScheme x).ty

/-- What is demanded of a function before its body is walked, with its symbol, type and result. -/
def announce (name : String) (formals : List (Formal Span)) (pos : Span)
    (scope bodyScope : ScopeId) : CheckM (SymbolId × Ty × Ty) := do
  let params ← bindFormals bodyScope formals
  let x ← lookup scope name pos
  let result ← fresh
  let declared ← onTable (instantiate (← symbolScheme x))
  demandEqual (.fn params result) declared (.fnSignature pos)
  note (.enter pos x result)
  return (x, .fn params result, result)

theorem enterFunction_eq (name : String) (formals : List (Formal Span)) (pos : Span)
    (scope bodyScope : ScopeId) : enterFunction name formals pos scope bodyScope = (do
      let r ← announce name formals pos scope bodyScope
      modify fun s => { s with returns := (name, r.2.2) :: s.returns }
      return r) := by
  simp only [enterFunction, announce, bind_assoc, pure_bind]

/-- Generalize the function of the symbol `x` if its name stands in the root scope. -/
def generalizeFunction (name : String) (scope : ScopeId) (x : SymbolId) (fnTy : Ty) :
    CheckM Unit := do
  if (← Action.require ((← get).scopes.requireScope scope)).level = 1 then
    let env ← envVars scope x
    let σ ← readTable fun T => T.checkedGeneralize fnTy env
    modify fun s =>
      { s with scopes := s.scopes.setScheme x σ, schemes := s.schemes.insert name σ }

theorem leaveFunction_eq (opts : CheckOptions) (name : String) (pos bodyPos : Span)
    (scope : ScopeId) (x : SymbolId) (fnTy result bodyTy : Ty) :
    leaveFunction opts name pos bodyPos scope x fnTy result bodyTy = (do
      modify fun s => { s with returns := s.returns.tail }
      note (.leave pos)
      demandEqual result bodyTy (.fnBody pos bodyPos)
      solveQueue opts
      generalizeFunction name scope x fnTy
      let t ← readTable fun T => T.checkedResolve fnTy
      record pos t
      return t) := by
  simp only [leaveFunction, generalizeFunction, bind_assoc]
  refine bind_congr fun _ => bind_congr fun _ => bind_congr fun _ => bind_congr fun _ =>
    bind_congr fun _ => bind_congr fun c => ?_
  split <;> simp only [bind_assoc, pure_bind]

/-- The symbol and the type of a function with a body, checked up to its generalization. -/
def functionType (opts : CheckOptions) (name : String) (formals : List (Formal Span))
    (body : Expr Span) (pos : Span) (scope bodyScope : ScopeId) : CheckM (SymbolId × Ty) := do
  let r ← announce name formals pos scope bodyScope
  modify fun s => { s with returns := (name, r.2.2) :: s.returns }
  let t ← expr opts body
  modify fun s => { s with returns := s.returns.tail }
  note (.leave pos)
  demandEqual r.2.2 t (.fnBody pos body.pos)
  solveQueue opts
  return (r.1, r.2.1)

/-- The type of a function with a body, generalized in the root scope. -/
def functionDecl (opts : CheckOptions) (name : String) (formals : List (Formal Span))
    (body : Expr Span) (pos : Span) (scope bodyScope : ScopeId) : CheckM Ty := do
  let r ← functionType opts name formals body pos scope bodyScope
  generalizeFunction name scope r.1 r.2
  let t ← readTable fun T => T.checkedResolve r.2
  record pos t
  return t

theorem stmt_funDecl (opts : CheckOptions) (name : String) (formals : List (Formal Span))
    (body : Expr Span) (hint : Option Ty) (pos : Span) (scope bodyScope : ScopeId) :
    stmt opts (.funDecl name formals (some body) hint pos scope bodyScope) = (do
      let outer := (← get).queue
      modify fun s => { s with queue := [] }
      let t ← functionDecl opts name formals body pos scope bodyScope
      modify fun s => { s with queue := outer }
      return t) := by
  unfold stmt functionDecl functionType
  simp only [enterFunction_eq, leaveFunction_eq, bind_assoc, pure_bind]

theorem calleeSymbol_bind {β : Type} (name : String) (namePos pos : Span) (home : ScopeId)
    (k : Ty → CheckM β) : calleeSymbol name namePos pos home >>= k = (do
      let x ← lookup home name namePos
      let t ← onTable (instantiate (← symbolScheme x))
      note (.call pos x t)
      k t) := by
  simp only [calleeSymbol, bind_assoc, pure_bind]

theorem stmt_varDecl (opts : CheckOptions) (name : String) (ty : Option Ty) (value : Expr Span)
    (pos : Span) (scope : ScopeId) (symbol : Option SymbolId) :
    stmt opts (.varDecl name ty value pos scope symbol) = (do
      let t ← variableType name pos scope symbol
      let u ← expr opts value
      demandEqual t u (.letBinding pos value.pos)
      return .unit) := by
  unfold stmt variableType
  cases symbol <;> simp only [bind_assoc, pure_bind]

/-- How the relations of an invariant compose. -/
structure Laws (I : Invariant) : Prop where
  later_refl {s} : I.inv s → I.later s s
  later_trans {s s' s''} : I.later s s' → I.later s' s'' → I.later s s''
  later_returns {s s'} : I.later s s' → s'.returns = s.returns
  later_good {s s' v} : I.later s s' → I.goodVar s v → I.goodVar s' v
  later_failed {s s' e s''} : I.later s s' → I.failed s' e s'' → I.failed s e s''
  fail {s e} : I.inv s → I.okError e → I.failed s e s
  pos {owner n p} : I.ok owner n → p ∈ n.spans → I.okPos p

/-- What has to be shown of the single things that a walk does (module doc). -/
structure Rules (opts : CheckOptions) (I : Invariant) : Prop extends Laws I where
  computedCallee {owner callee args pos scope} :
    I.ok owner (.expr (.callValue callee args pos scope)) → I.fault (.computedCallee pos)
  castWithoutTarget {owner e pos} :
    I.ok owner (.expr (.cast e none pos)) → I.fault (.castWithoutTarget pos)
  alloc {owner s ty size pos} : I.ok owner (.expr (.alloc ty size pos)) → I.good s ty
  cast {owner s e ty pos} : I.ok owner (.expr (.cast e (some ty) pos)) → I.good s ty
  fieldScope {owner e name pos scope} :
    I.ok owner (.expr (.field e name pos scope)) → I.okScope scope
  callScope {owner s name namePos args pos scope f} : I.At owner s →
    I.ok owner (.expr (.call name namePos args pos scope)) →
    s.scopes.requireScope scope = .error f → I.fault f
  fresh {s} : I.inv s → I.Keeps s fresh fun t s' => I.good s' t
  leader {s t} : I.inv s → I.good s t →
    I.Keeps s (readTable fun T => T.checkedLeader t) fun t s' => I.good s' t
  demand {s c o} : I.inv s → I.okOrigin o → (∀ t ∈ c.types, I.good s t) →
    (∀ x ∈ c.scope?, I.okScope x) → I.Keeps s (demand c o) fun _ _ => True
  record {s pos t} : I.inv s → I.good s t → I.Keeps s (record pos t) fun _ _ => True
  note {s e} : I.inv s → Event.demands [e] = [] → Event.uses [e] = [] → e.looked? = none →
    I.Keeps s (note e) fun _ _ => True
  read {owner s name pos scope x} : I.At owner s →
    I.ok owner (.expr (.var name pos scope (some x))) →
    I.Keeps s (readSymbol pos x) fun t s' => I.good s' t
  callee {owner s name namePos args pos scope home} : I.At owner s →
    I.ok owner (.expr (.call name namePos args pos scope)) →
    s.scopes.find? scope name = some home →
    I.Keeps s (calleeSymbol name namePos pos home) fun t s' => I.good s' t
  layout {owner s name values pos scope} : I.At owner s →
    I.ok owner (.expr (.structInit name values pos scope)) →
    I.Keeps s (initLayout name pos scope values.length) fun r s' => ∀ f ∈ r.2, I.good s' f.2
  slot {owner s name ty e pos scope symbol} : I.At owner s →
    I.ok owner (.stmt (.varDecl name ty e pos scope symbol)) →
    I.Keeps s (variableType name pos scope symbol) fun t s' => I.good s' t
  typeDecl {owner s name ty pos scope} : I.At owner s →
    I.ok owner (.stmt (.typeDecl name ty pos scope)) →
    I.Keeps s (stmt opts (.typeDecl name ty pos scope)) fun _ _ => True
  ret {owner s e function pos scope} : I.At owner s →
    I.ok owner (.stmt (.ret e function pos scope)) →
    I.Keeps s (returnType function pos scope) fun t s' => I.good s' t
  function {owner s name formals body hint pos scope bodyScope} : I.At owner s →
    I.ok owner (.stmt (.funDecl name formals (some body) hint pos scope bodyScope)) →
    I.okPos body.pos →
    (∀ s', I.At (some name) s' → I.Keeps s' (expr opts body) fun t s'' => I.good s'' t) →
    I.Keeps s (stmt opts (.funDecl name formals (some body) hint pos scope bodyScope))
      fun _ _ => True

/-! ## Composition -/

namespace Laws

variable {I : Invariant} (L : Laws I) {owner : Option String} {s s' : CheckState} {α β : Type}
include L

theorem goodTy (h : I.later s s') {t : Ty} (ht : I.good s t) : I.good s' t :=
  fun v hv => L.later_good h (ht v hv)

theorem bind {x : CheckM α} {f : α → CheckM β} {Q : α → CheckState → Prop}
    {Q' : β → CheckState → Prop} (h : I.At owner s) (hx : I.Keeps s x Q)
    (hf : ∀ a s', I.At owner s' → I.later s s' → Q a s' → I.Keeps s' (f a) Q') :
    I.Keeps s (x >>= f) Q' := by
  refine Action.Ends.bind hx fun a s' ⟨hi, hl, hq⟩ => ?_
  exact (hf a s' ⟨hi, (L.later_returns hl).symm ▸ h.owner⟩ hl hq).mono
    (fun b s'' ⟨hi', hl', hq'⟩ => ⟨hi', L.later_trans hl hl', hq'⟩)
    (fun e s'' he => L.later_failed hl he) fun _ => id

theorem pure {a : α} {Q : α → CheckState → Prop} (h : I.At owner s) (hq : Q a s) :
    I.Keeps s (Pure.pure a) Q :=
  Action.ends_pure ⟨h.inv, L.later_refl h.inv, hq⟩

theorem error {e : TypeError} {Q : α → CheckState → Prop} (h : I.At owner s) (he : I.okError e) :
    I.Keeps s (Action.fail e) Q :=
  Action.ends_fail (L.fail h.inv he)

theorem exprPos {e : Expr Span} (he : Expr.Every I.ok owner e) : I.okPos e.pos :=
  L.pos he.root (Node.pos_mem_spans e)

end Laws

namespace Rules

variable {opts : CheckOptions} {I : Invariant} (R : Rules opts I) {owner : Option String}
  {s s' : CheckState}
include R

theorem demandEqual {a b : Ty} {o : Origin} (h : I.At owner s) (ho : I.okOrigin o)
    (ha : I.good s a) (hb : I.good s b) : I.Keeps s (demandEqual a b o) fun _ _ => True :=
  R.demand h.inv ho (by simp [Constraint.types, ha, hb]) (by simp [Constraint.scope?])

omit R in
theorem closed {t : Ty} (ht : t.occurrences = []) : I.good s t := by
  intro v hv
  rw [ht] at hv
  cases hv

omit R in
theorem good_fn {ps : List Ty} {r : Ty} :
    I.good s (.fn ps r) ↔ (∀ p ∈ ps, I.good s p) ∧ I.good s r := by
  simp only [Invariant.good, Ty.occurrences, Ty.occurrencesAll_eq_flatMap, List.mem_append,
    List.mem_flatMap]
  refine ⟨fun h => ⟨fun p hp v hv => h v (.inl ⟨p, hp, hv⟩), fun v hv => h v (.inr hv)⟩, ?_⟩
  rintro ⟨hps, hr⟩ v (⟨p, hp, hv⟩ | hv)
  · exact hps p hp v hv
  · exact hr v hv

omit R in
theorem good_struct {n : Option String} {fs : List (String × Ty)} :
    I.good s (.struct n fs) ↔ ∀ f ∈ fs, I.good s f.2 := by
  simp only [Invariant.good, Ty.occurrences, Ty.occurrencesFields_eq_flatMap, List.mem_flatMap]
  refine ⟨fun h f hf v hv => h v ⟨f, hf, hv⟩, ?_⟩
  rintro h v ⟨f, hf, hv⟩
  exact h f hf v hv

theorem freshes (n : Nat) (h : I.At owner s) :
    I.Keeps s ((List.replicate n ()).mapM fun _ => Check.fresh) fun ts s' =>
      ∀ t ∈ ts, I.good s' t := by
  induction n generalizing s with
  | zero => exact R.pure h nofun
  | succ n ih =>
    rw [List.replicate_succ, List.mapM_cons]
    refine R.bind h (R.fresh h.inv) fun t s1 h1 _ ht => ?_
    refine R.bind h1 (ih h1) fun ts s2 h2 hl hts => ?_
    exact R.pure h2 (List.forall_mem_cons.2 ⟨R.goodTy hl ht, hts⟩)

/-- The traits demanded of one type. -/
theorem traits {t : Ty} {o : Origin} (cs : List Trait)
    (hcs : ∀ c ∈ cs, (Constraint.has t c).types = [t] ∧ (Constraint.has t c).scope? = none)
    (h : I.At owner s) (ho : I.okOrigin o) (ht : I.good s t) :
    I.Keeps s (cs.forM fun c => Check.demand (.has t c) o) fun _ _ => True := by
  induction cs generalizing s with
  | nil => exact R.pure h trivial
  | cons c cs ih =>
    obtain ⟨hc, hcs⟩ := List.forall_mem_cons.1 hcs
    refine R.bind (x := Check.demand (.has t c) o) h (R.demand h.inv ho (by simp [hc.1, ht])
      (by simp [hc.2])) fun _ s1 h1 hl _ => ?_
    exact ih hcs h1 (R.goodTy hl ht)

/-- The shape of a callee has good parts. -/
theorem calleeShape {name : String} {pos : Span} {count : Nat} {t : Ty} (h : I.At owner s)
    (hp : I.okPos pos) (ht : I.good s t) : I.Keeps s (calleeShape name pos count t) fun r s' =>
      ∀ ps u, r = some (ps, u) → (∀ p ∈ ps, I.good s' p) ∧ I.good s' u := by
  unfold Check.calleeShape
  refine R.bind h (R.leader h.inv ht) fun l s1 h1 hl hg => ?_
  split
  · rename_i ps u
    split
    · exact R.pure h1 (by rintro _ _ ⟨⟩; exact good_fn.1 hg)
    · exact R.error h1 ⟨pos, rfl, hp⟩
  · refine R.bind h1 (R.freshes count h1) fun ps s2 h2 hl2 hps => ?_
    refine R.bind h2 (R.fresh h2.inv) fun u s3 h3 hl3 hu => ?_
    have hps' : ∀ p ∈ ps, I.good s3 p := fun p hp => R.goodTy hl3 (hps p hp)
    refine R.bind h3 (R.demandEqual h3 ⟨pos, rfl, hp⟩ (good_fn.2 ⟨hps', hu⟩)
      (R.goodTy hl3 (R.goodTy hl2 (R.goodTy hl ht)))) fun _ s4 h4 hl4 _ => ?_
    refine R.pure h4 ?_
    rintro _ _ ⟨⟩
    exact ⟨fun p hp => R.goodTy hl4 (hps' p hp), R.goodTy hl4 hu⟩
  · exact R.pure h1 nofun

omit R in
theorem comparisonTraits_types (op : CompareOp) (t : Ty) : ∀ c ∈ comparisonTraits op,
    (Constraint.has t c).types = [t] ∧ (Constraint.has t c).scope? = none := by
  cases op <;> simp [comparisonTraits, Constraint.types, Trait.types, Constraint.scope?]

/-! ## The walk -/

mutual

theorem expr : ∀ {owner s} (e : Expr Span), Expr.Every I.ok owner e → I.At owner s →
    I.Keeps s (Check.expr opts e) fun t s' => I.good s' t
  | owner, s, .literal v p, _, h => by
    unfold Check.expr
    have hv : I.good s (literalType v) := closed (by cases v <;> rfl)
    exact R.bind h (R.record h.inv hv) fun _ s1 h1 hl _ => R.pure h1 (R.goodTy hl hv)
  | owner, s, .var x p sc none, hok, h => by
    unfold Check.expr
    exact R.error h ⟨p, rfl, R.exprPos hok⟩
  | owner, s, .var x p sc (some y), hok, h => by
    unfold Check.expr
    exact R.read h hok
  | owner, s, .unary op e p, ⟨_, he⟩, h => by
    unfold Check.expr
    refine R.bind h (expr e he h) fun t s1 h1 _ ht => ?_
    refine R.bind h1 (R.demandEqual h1 ⟨_, rfl, R.exprPos he⟩ (closed (by cases op <;> rfl)) ht)
      fun _ s2 h2 hl _ => ?_
    exact R.pure h2 (R.goodTy hl ht)
  | owner, s, .binary op l r p, ⟨_, hl, hr⟩, h => by
    unfold Check.expr
    refine R.bind h (expr l hl h) fun t s1 h1 _ ht => ?_
    refine R.bind h1 (expr r hr h1) fun u s2 h2 hl2 hu => ?_
    refine R.bind h2 (R.demandEqual h2 ⟨_, rfl, R.exprPos hr⟩ (closed rfl) hu)
      fun _ s3 h3 hl3 _ => ?_
    exact R.pure h3 (R.goodTy hl3 (R.goodTy hl2 ht))
  | owner, s, .comparison op l r p, ⟨hok, hl, hr⟩, h => by
    unfold Check.expr
    have hp : I.okOrigin (.comparison p) := ⟨p, rfl, R.pos hok List.mem_cons_self⟩
    refine R.bind h (expr l hl h) fun t s1 h1 _ ht => ?_
    refine R.bind h1 (expr r hr h1) fun u s2 h2 hl2 hu => ?_
    refine R.bind h2 (R.traits _ (comparisonTraits_types op t) h2 hp (R.goodTy hl2 ht))
      fun _ s3 h3 hl3 _ => ?_
    refine R.bind h3 (R.demandEqual h3 hp (R.goodTy hl3 (R.goodTy hl2 ht)) (R.goodTy hl3 hu))
      fun _ s4 h4 _ _ => ?_
    exact R.pure h4 (closed rfl)
  | owner, s, .cond c t e p, ⟨_, hc, ht, he⟩, h => by
    unfold Check.expr
    refine R.bind h (expr c hc h) fun u s1 h1 _ hu => ?_
    refine R.bind h1 (R.demandEqual h1 ⟨_, rfl, R.exprPos hc⟩ (closed rfl) hu)
      fun _ s2 h2 _ _ => ?_
    refine R.bind h2 (expr t ht h2) fun u s3 h3 _ hu => ?_
    refine R.bind h3 (optional e he h3) fun w s4 h4 hl4 hw => ?_
    have hp : I.okPos ((e.map Expr.pos).getD t.pos) := by
      cases e with
      | none => exact R.exprPos ht
      | some e => exact R.exprPos (e := e) he
    refine R.bind h4 (R.demandEqual h4 ⟨_, rfl, hp⟩ (R.goodTy hl4 hu) hw) fun _ s5 h5 hl5 _ => ?_
    exact R.pure h5 (R.goodTy hl5 (R.goodTy hl4 hu))
  | owner, s, .deref e p, ⟨hok, he⟩, h => by
    unfold Check.expr
    refine R.bind h (expr e he h) fun t s1 h1 _ ht => ?_
    refine R.bind h1 (R.fresh h1.inv) fun u s2 h2 hl2 hu => ?_
    refine R.bind h2 (R.demandEqual h2 ⟨p, rfl, R.pos hok List.mem_cons_self⟩ hu
      (R.goodTy hl2 ht)) fun _ s3 h3 hl3 _ => ?_
    exact R.leader h3.inv (R.goodTy hl3 hu)
  | owner, s, .addressOf e p, ⟨_, he⟩, h => by
    unfold Check.expr
    exact R.bind h (expr e he h) fun t s1 h1 _ ht => R.pure h1 ht
  | owner, s, .alloc t none p, ⟨hok, _⟩, h => by
    unfold Check.expr
    exact R.pure h (R.alloc hok)
  | owner, s, .alloc t (some e) p, ⟨hok, he⟩, h => by
    unfold Check.expr
    refine R.bind h (expr e he h) fun u s1 h1 _ hu => ?_
    refine R.bind h1 (R.demandEqual h1 ⟨_, rfl, R.exprPos (e := e) he⟩ (closed rfl) hu)
      fun _ s2 h2 _ _ => ?_
    exact R.pure h2 (R.alloc hok)
  | owner, s, .block b e p sc, ⟨_, hb, he⟩, h => by
    unfold Check.expr
    exact R.bind h (stmts b hb h) fun _ s1 h1 _ _ => optional e he h1
  | owner, s, .call x q as p sc, ⟨hok, has⟩, h => by
    unfold Check.expr
    refine Action.ends_get_bind ?_
    refine Action.ends_require_bind (fun _ _ => ?_) fun f hf => R.callScope h hok hf
    have hp : I.okPos p := R.pos hok List.mem_cons_self
    split
    · exact R.error h ⟨q, rfl, R.pos hok (by simp [Node.spans])⟩
    · rename_i home hf
      rw [← calleeSymbol_bind]
      refine R.bind h (R.callee h hok hf) fun t s1 h1 _ ht => ?_
      refine R.bind h1 (R.demand h1.inv ⟨p, rfl, hp⟩ (by simp [Constraint.types, Trait.types, ht])
        (by simp [Constraint.scope?])) fun _ s2 h2 hl2 _ => ?_
      refine R.bind h2 (R.calleeShape h2 hp (R.goodTy hl2 ht)) fun r s3 h3 _ hr => ?_
      split
      · rename_i ps u
        obtain ⟨hps, hu⟩ := hr ps u rfl
        refine R.bind h3 (arguments ps as has h3 hps) fun _ s4 h4 hl4 _ => ?_
        exact R.pure h4 (R.goodTy hl4 hu)
      · exact R.bind h3 (walk as has h3) fun _ s4 h4 _ _ => R.fresh h4.inv
  | owner, s, .callValue c as p sc, ⟨hok, _⟩, h => by
    unfold Check.expr
    exact Action.ends_abort (R.computedCallee hok)
  | owner, s, .structInit x vs p sc, ⟨hok, hvs⟩, h => by
    unfold Check.expr
    refine R.bind h (R.layout h hok) fun r s1 h1 _ hr => ?_
    refine R.bind h1 (fieldValues r.2 vs hvs h1 hr) fun _ s2 h2 hl2 _ => ?_
    exact R.pure h2 (good_struct.2 fun f hf => R.goodTy hl2 (hr f hf))
  | owner, s, .field e x p sc, ⟨hok, he⟩, h => by
    unfold Check.expr
    refine R.bind h (expr e he h) fun t s1 h1 _ ht => ?_
    refine R.bind h1 (R.leader h1.inv ht) fun b s2 h2 _ hb => ?_
    refine R.bind h2 (R.fresh h2.inv) fun u s3 h3 hl3 hu => ?_
    refine R.bind h3 (R.demand h3.inv ⟨p, rfl, R.pos hok List.mem_cons_self⟩
      (by simp [Constraint.types, Trait.types, hu, R.goodTy hl3 hb])
      (by simpa [Constraint.scope?] using R.fieldScope hok)) fun _ s4 h4 hl4 _ => ?_
    refine R.bind h4 (R.record h4.inv (R.goodTy hl4 hu)) fun _ s5 h5 hl5 _ => ?_
    refine R.bind h5 (R.note h5.inv rfl rfl rfl) fun _ s6 h6 hl6 _ => ?_
    exact R.pure h6 (R.goodTy hl6 (R.goodTy hl5 (R.goodTy hl4 hu)))
  | owner, s, .cast e t p, ⟨hok, he⟩, h => by
    unfold Check.expr
    refine R.bind h (expr e he h) fun t s1 h1 _ ht => ?_
    split
    · exact Action.ends_abort (R.castWithoutTarget hok)
    · refine R.bind h1 (R.leader h1.inv ht) fun b s2 h2 _ hb => ?_
      refine R.bind h2 (R.demand h2.inv ⟨p, rfl, R.pos hok List.mem_cons_self⟩
        (by simpa [Constraint.types, Trait.types, hb] using R.cast hok)
        (by simp [Constraint.scope?])) fun _ s3 h3 _ _ => ?_
      exact R.pure h3 (R.cast hok)

theorem optional : ∀ {owner s} (e : Option (Expr Span)), Expr.EveryOpt I.ok owner e → I.At owner s →
    I.Keeps s (Check.optional opts e) fun t s' => I.good s' t
  | owner, s, none, _, h => by
    unfold Check.optional
    exact R.pure h (closed rfl)
  | owner, s, some e, he, h => by
    unfold Check.optional
    exact expr e he h

theorem walk : ∀ {owner s} (es : List (Expr Span)), Expr.EveryAll I.ok owner es → I.At owner s →
    I.Keeps s (Check.walk opts es) fun _ _ => True
  | owner, s, [], _, h => by
    unfold Check.walk
    exact R.pure h trivial
  | owner, s, e :: es, ⟨he, hes⟩, h => by
    unfold Check.walk
    exact R.bind h (expr e he h) fun _ s1 h1 _ _ => walk es hes h1

theorem arguments : ∀ {owner s} {call : Span} {i : Nat} (ps : List Ty) (es : List (Expr Span)),
    Expr.EveryAll I.ok owner es → I.At owner s → (∀ p ∈ ps, I.good s p) →
    I.Keeps s (Check.arguments opts call i ps es) fun _ _ => True
  | owner, s, call, i, p :: ps, e :: es, ⟨he, hes⟩, h, hps => by
    unfold Check.arguments
    refine R.bind h (expr e he h) fun t s1 h1 hl1 ht => ?_
    refine R.bind h1 (R.demandEqual h1 ⟨_, rfl, R.exprPos he⟩ (R.goodTy hl1 (hps p (by simp))) ht)
      fun _ s2 h2 hl2 _ => ?_
    exact arguments ps es hes h2 fun q hq => R.goodTy hl2 (R.goodTy hl1 (hps q (by simp [hq])))
  | owner, s, call, i, [], es, _, h, _ => by
    unfold Check.arguments
    exact R.pure h trivial
  | owner, s, call, i, p :: ps, [], _, h, _ => by
    unfold Check.arguments
    exact R.pure h trivial

theorem fieldValues : ∀ {owner s} {init : Span} (fs : List (String × Ty)) (es : List (Expr Span)),
    Expr.EveryAll I.ok owner es → I.At owner s → (∀ f ∈ fs, I.good s f.2) →
    I.Keeps s (Check.fieldValues opts init fs es) fun _ _ => True
  | owner, s, init, (n, t) :: fs, e :: es, ⟨he, hes⟩, h, hfs => by
    unfold Check.fieldValues
    refine R.bind h (expr e he h) fun u s1 h1 hl1 hu => ?_
    refine R.bind h1 (R.demandEqual h1 ⟨_, rfl, R.exprPos he⟩
      (R.goodTy hl1 (hfs (n, t) (by simp))) hu) fun _ s2 h2 hl2 _ => ?_
    exact fieldValues fs es hes h2 fun g hg => R.goodTy hl2 (R.goodTy hl1 (hfs g (by simp [hg])))
  | owner, s, init, [], es, _, h, _ => by
    unfold Check.fieldValues
    exact R.pure h trivial
  | owner, s, init, f :: fs, [], _, h, _ => by
    unfold Check.fieldValues
    exact R.pure h trivial

theorem stmt : ∀ {owner s} (t : Stmt Span), Stmt.Every I.ok owner t → I.At owner s →
    I.Keeps s (Check.stmt opts t) fun _ _ => True
  | owner, s, .expr e, ⟨_, he⟩, h | owner, s, .yield e p, ⟨_, he⟩, h => by
    unfold Check.stmt
    exact R.bind h (expr e he h) fun _ s1 h1 _ _ => R.pure h1 trivial
  | owner, s, .typeDecl x t p sc, hok, h => R.typeDecl h hok
  | owner, s, .varDecl x t e p sc y, ⟨hok, he⟩, h => by
    rw [stmt_varDecl]
    refine R.bind h (R.slot h hok) fun t s1 h1 _ ht => ?_
    refine R.bind h1 (expr e he h1) fun u s2 h2 hl2 hu => ?_
    refine R.bind h2 (R.demandEqual h2 ⟨_, rfl, R.exprPos he⟩ (R.goodTy hl2 ht) hu)
      fun _ s3 h3 _ _ => ?_
    exact R.pure h3 trivial
  | owner, s, .funDecl x fs none t p sc sc', _, h => by
    unfold Check.stmt
    exact R.pure h trivial
  | owner, s, .funDecl x fs (some b) t p sc sc', ⟨hok, hb⟩, h =>
    R.function h hok (R.exprPos (e := b) hb) fun s' h' => expr b hb h'
  | owner, s, .ret e f p sc, ⟨hok, he⟩, h => by
    unfold Check.stmt
    refine R.bind h (R.ret h hok) fun r s1 h1 _ hr => ?_
    refine R.bind h1 (R.note h1.inv rfl rfl rfl) fun _ s2 h2 hl2 _ => ?_
    refine R.bind h2 (expr e he h2) fun t s3 h3 hl3 ht => ?_
    refine R.bind h3 (R.demandEqual h3 ⟨_, rfl, R.exprPos he⟩ (R.goodTy hl3 (R.goodTy hl2 hr)) ht)
      fun _ s4 h4 _ _ => ?_
    exact R.pure h4 trivial
  | owner, s, .assign l r p, ⟨_, hl, hr⟩, h => by
    unfold Check.stmt
    refine R.bind h (expr r hr h) fun u s1 h1 _ hu => ?_
    refine R.bind h1 (expr l hl h1) fun t s2 h2 hl2 ht => ?_
    refine R.bind h2 (R.demandEqual h2 ⟨_, rfl, R.exprPos hr⟩ ht (R.goodTy hl2 hu))
      fun _ s3 h3 _ _ => ?_
    exact R.pure h3 trivial

theorem stmts : ∀ {owner s} (ts : List (Stmt Span)), Stmt.EveryAll I.ok owner ts → I.At owner s →
    I.Keeps s (Check.stmts opts ts) fun _ _ => True
  | owner, s, [], _, h => by
    unfold Check.stmts
    exact R.pure h trivial
  | owner, s, t :: ts, ⟨ht, hts⟩, h => by
    unfold Check.stmts
    exact R.bind h (stmt t ht h) fun _ s1 h1 _ _ => stmts ts hts h1

end

end Rules

end Check

end TypeInference
