import TypeInference.Proofs.Check.Rules
import TypeInference.Proofs.Check.State

/-!
# Walks that ask nothing of types

An invariant that knows nothing of the variables in types and allows every fault is kept by a walk
if the single operations keep it. `Basics` and `Operations` list these. `Basics` leaves out what is
noted of uses and declarations; constructs that note neither need no more. `Operations.rules` makes
the rules of the walk of the whole list. A function declaration is left: what it does with the queue
is for each invariant to say. If the invariant is one of single states, `Stepwise` lists what is
left to be shown of it, except for the generalization of a function; then a function keeps it if its
generalization does (`Stepwise.function`), and so does a top-level statement (`Stepwise.topLevel`).
`Pointwise` adds that every generalization keeps it.
-/

namespace TypeInference.Check

/-- The type taken for a symbol that is used, noted as `e` says. -/
def useSymbol (e : Ty → Event) (x : SymbolId) : CheckM Ty := do
  let t ← onTable (instantiate (← symbolScheme x))
  note (e t)
  return t

/-- What has to be shown of operations that note neither a use nor a declaration. -/
structure Basics (I : Invariant) : Prop extends Laws I where
  fault (f) : I.fault f
  goodVar (s v) : I.goodVar s v
  okScope (scope) : I.okScope scope
  fresh {s} : I.inv s → I.Keeps s fresh fun _ _ => True
  demand {s c o} : I.inv s → I.okOrigin o → I.Keeps s (demand c o) fun _ _ => True
  record {s pos t} : I.inv s → I.Keeps s (record pos t) fun _ _ => True
  slot {s x} : I.inv s → I.Keeps s (symbolScheme x) fun σ s' => s'.scopes.scheme? x = some σ

/-- What has to be shown of the single operations of a walk (module doc). -/
structure Operations (I : Invariant) : Prop extends Basics I where
  note {s e} : I.inv s → Event.demands [e] = [] → Event.uses [e] = [] →
    I.Keeps s (note e) fun _ _ => True
  use {s pos x} (e : Ty → Event) : e = .read pos x ∨ e = .call pos x → I.inv s →
    I.Keeps s (useSymbol e x) fun _ _ => True

namespace Basics

variable {I : Invariant} (O : Basics I) {owner : Option String} {s : CheckState}
include O

theorem good {t : Ty} : I.good s t := fun v _ => O.goodVar s v

theorem readTable {α : Type} {f : VarTable → Except Fault α} (h : I.inv s) :
    I.Keeps s (readTable f) fun a s' => s' = s ∧ f s.table = .ok a :=
  readTable_ends (fun _ ha => ⟨h, O.later_refl h, rfl, ha⟩) fun f _ => O.fault f

theorem lookup {scope : ScopeId} {name : String} {pos : Span} (h : I.inv s) (hp : I.okPos pos) :
    I.Keeps s (lookup scope name pos) fun x s' => s' = s ∧ s.scopes.lookup? scope name = some x :=
  lookup_ends (fun _ hx => ⟨h, O.later_refl h, rfl, hx⟩) (fun _ => O.fail h ⟨pos, rfl, hp⟩)
    fun f _ => O.fault f

theorem variableType {name : String} {pos : Span} {scope : ScopeId} {symbol : Option SymbolId}
    (h : I.At owner s) (hp : I.okPos pos) :
    I.Keeps s (variableType name pos scope symbol) fun _ _ => True := by
  unfold Check.variableType
  cases symbol with
  | some x =>
    refine O.bind h (Q := fun _ _ => True) (O.pure h trivial) fun x s1 h1 _ _ => ?_
    exact O.bind h1 (O.slot h1.inv) fun σ s2 h2 _ _ => O.pure h2 trivial
  | none =>
    refine O.bind h (O.lookup h.inv hp) fun x s1 h1 _ _ => ?_
    exact O.bind h1 (O.slot h1.inv) fun σ s2 h2 _ _ => O.pure h2 trivial

theorem initLayout {name : String} {pos : Span} {scope : ScopeId} {count : Nat}
    (h : I.At owner s) (hp : I.okPos pos) :
    I.Keeps s (initLayout name pos scope count) fun _ _ => True := by
  unfold Check.initLayout
  refine O.bind h (O.lookup h.inv hp) fun x s1 h1 _ _ => ?_
  refine O.bind h1 (O.slot h1.inv) fun σ s2 h2 _ _ => ?_
  refine O.bind h2 (O.readTable h2.inv) fun l s3 h3 _ _ => ?_
  split
  · split
    · exact O.pure h3 trivial
    · exact O.error h3 ⟨pos, rfl, hp⟩
  · exact O.bind h3 (O.readTable h3.inv) fun _ s4 h4 _ _ => O.error h4 ⟨pos, rfl, hp⟩

theorem returnType {function : Option String} {pos : Span} {scope : ScopeId} (h : I.At owner s)
    (hp : I.okPos pos) : I.Keeps s (returnType function pos scope) fun _ _ => True := by
  unfold Check.returnType
  cases function with
  | none => exact Action.ends_abort (O.fault _)
  | some name =>
    refine Action.ends_get_bind ?_
    split
    · exact O.pure h trivial
    · refine O.bind h (O.lookup h.inv hp) fun x s1 h1 _ _ => ?_
      refine O.bind h1 (O.slot h1.inv) fun σ s2 h2 _ _ => ?_
      refine O.bind h2 (O.readTable h2.inv) fun l s3 h3 _ _ => ?_
      split
      · exact O.pure h3 trivial
      · exact Action.ends_abort (O.fault _)

end Basics

namespace Operations

variable {I : Invariant} (O : Operations I) {owner : Option String} {s : CheckState}
include O

theorem typeDecl {opts : CheckOptions} {name : String} {body : Ty} {pos : Span} {scope : ScopeId}
    (h : I.At owner s) (hp : I.okPos pos) :
    I.Keeps s (stmt opts (.typeDecl name body pos scope)) fun _ _ => True := by
  unfold stmt
  refine O.bind h (O.lookup h.inv hp) fun x s1 h1 _ _ => ?_
  refine O.bind h1 (O.note h1.inv rfl rfl) fun _ s2 h2 _ _ => ?_
  refine O.bind h2 (O.slot h2.inv) fun σ s3 h3 _ _ => ?_
  exact O.bind h3 (O.record h3.inv) fun _ s4 h4 _ _ => O.pure h4 trivial

theorem bindFormals {bodyScope : ScopeId} (fs : List (Formal Span)) (h : I.At owner s)
    (hfs : ∀ f ∈ fs, I.okPos f.pos) : I.Keeps s (bindFormals bodyScope fs) fun _ _ => True := by
  induction fs generalizing s with
  | nil => exact O.pure h trivial
  | cons f fs ih =>
    obtain ⟨hf, hfs⟩ := List.forall_mem_cons.1 hfs
    unfold Check.bindFormals
    refine O.bind h (O.fresh h.inv) fun _ s1 h1 _ _ => ?_
    refine O.bind h1 (O.lookup h1.inv hf) fun x s2 h2 _ _ => ?_
    refine O.bind h2 (O.note h2.inv rfl rfl) fun _ s3 h3 _ _ => ?_
    refine O.bind h3 (O.slot h3.inv) fun σ s4 h4 _ _ => ?_
    refine O.bind h4 (O.demand h4.inv ⟨f.pos, rfl, hf⟩) fun _ s5 h5 _ _ => ?_
    exact O.bind h5 (ih h5 hfs) fun _ s6 h6 _ _ => O.pure h6 trivial

/-- The rules of a walk that asks nothing of types. -/
theorem rules (opts : CheckOptions)
    (function : ∀ {owner s name formals body hint pos scope bodyScope}, I.At owner s →
      I.ok owner (.stmt (.funDecl name formals (some body) hint pos scope bodyScope)) →
      I.okPos body.pos →
      (∀ s', I.At (some name) s' → I.Keeps s' (expr opts body) fun t s'' => I.good s'' t) →
      I.Keeps s (stmt opts (.funDecl name formals (some body) hint pos scope bodyScope))
        fun _ _ => True) : Rules opts I where
  toLaws := O.toLaws
  computedCallee _ := O.fault _
  castWithoutTarget _ := O.fault _
  alloc _ := O.good
  cast _ := O.good
  fieldScope _ := O.okScope _
  callScope _ _ _ := O.fault _
  fresh h := (O.fresh h).imp fun _ _ _ _ _ => O.good
  leader h _ := (O.readTable h).imp fun _ _ _ _ _ => O.good
  demand h ho _ _ := O.demand h ho
  record h _ := O.record h
  note h hd hu _ := O.note h hd hu
  read h _ := (O.use _ (.inl rfl) h.inv).imp fun _ _ _ _ _ => O.good
  callee h hok _ := O.bind h (O.lookup h.inv (O.pos hok (by simp [Node.spans])))
    fun _ _ h1 _ _ => (O.use _ (.inr rfl) h1.inv).imp fun _ _ _ _ _ => O.good
  layout h hok := (O.initLayout h (O.pos hok List.mem_cons_self)).imp
    fun _ _ _ _ _ _ _ => O.good
  slot h hok := (O.variableType h (O.pos hok List.mem_cons_self)).imp fun _ _ _ _ _ => O.good
  typeDecl h hok := O.typeDecl h (O.pos hok List.mem_cons_self)
  ret h hok := (O.returnType h (O.pos hok List.mem_cons_self)).imp fun _ _ _ _ _ => O.good
  function := function

end Operations

/-! ## Invariants of single states -/

/-- What has to be shown of an invariant that relates a state to an earlier one by its open
functions alone, apart from what single constructs do and from the generalization of functions. -/
structure Stepwise (I : Invariant) : Prop extends Basics I where
  later_of_returns {s s'} : s'.returns = s.returns → I.later s s'
  failed_anew {s s₁ e s'} : I.failed s₁ e s' → I.failed s e s'
  opened {s rs} : I.inv s → I.inv { s with returns := rs }
  emptied {s} : I.inv s → I.inv { s with queue := [] }
  resumed {s s'} : I.inv s → I.inv s' → I.inv { s' with queue := s.queue }
  leave {s pos} : I.inv s → I.Keeps s (note (.leave pos)) fun _ _ => True
  solve {opts s} : I.inv s → I.Keeps s (solveQueue opts) fun _ s' => s'.queue = []

/-- The invariant is kept by every generalization as well. -/
structure Pointwise (I : Invariant) : Prop extends Stepwise I where
  generalize {s name scope x t} : I.inv s →
    I.Keeps s (generalizeFunction name scope x t) fun _ _ => True

namespace Stepwise

variable {I : Invariant} (P : Stepwise I) {owner : Option String} {s : CheckState}
  {opts : CheckOptions} {name : String} {formals : List (Formal Span)} {body : Expr Span}
  {pos : Span} {scope bodyScope : ScopeId} {Q : SymbolId → Prop}
include P

/-- A function whose head keeps the invariant keeps it up to its generalization, if its body does
while the function is open; `Q` is what the head finds out about its symbol. -/
theorem functionType (h : I.At owner s) (hb : I.okPos body.pos)
    (hhead : I.Keeps s (announce name formals pos scope bodyScope) fun r _ => Q r.1)
    (hbody : ∀ s', I.At (some name) s' → I.Keeps s' (expr opts body) fun t s'' => I.good s'' t) :
    I.Keeps s (functionType opts name formals body pos scope bodyScope) fun r _ => Q r.1 := by
  unfold Check.functionType
  refine P.bind h hhead fun r s1 h1 _ hr => ?_
  -- while the body is walked the function is open
  refine Action.ends_modify_bind ?_
  refine Action.Ends.bind ((hbody _ ⟨P.opened h1.inv, rfl⟩).mono (fun _ _ => id)
    (fun _ _ => P.failed_anew) fun _ => id) fun t s3 ⟨h3, hl3, _⟩ => ?_
  refine Action.ends_modify_bind ?_
  have hret : s3.returns.tail = s1.returns := by rw [P.later_returns hl3]; rfl
  rw [hret]
  have h4 : I.At owner { s3 with returns := s1.returns } := ⟨P.opened h3, h1.owner⟩
  have hrest : I.Keeps { s3 with returns := s1.returns } (do
      note (.leave pos)
      demandEqual r.2.2 t (.fnBody pos body.pos)
      solveQueue opts
      return (r.1, r.2.1)) fun r _ => Q r.1 := by
    refine P.bind h4 (P.leave h4.inv) fun _ s5 h5 _ _ => ?_
    refine P.bind h5 (P.demand h5.inv ⟨body.pos, rfl, hb⟩) fun _ s6 h6 _ _ => ?_
    exact P.bind h6 (P.solve h6.inv) fun _ s7 h7 _ _ => P.pure h7 hr
  refine hrest.mono (fun _ _ ⟨h', hl', ht'⟩ => ⟨h', P.later_of_returns ?_, ht'⟩)
    (fun _ _ => P.failed_anew) fun _ => id
  exact (P.later_returns hl' :)

/-- A function declaration keeps the invariant, with a queue of its own. -/
theorem function {hint : Option Ty} (h : I.At owner s) (hb : I.okPos body.pos)
    (hhead : ∀ s', I.At owner s' →
      I.Keeps s' (announce name formals pos scope bodyScope) fun r _ => Q r.1)
    (hbody : ∀ s', I.At (some name) s' → I.Keeps s' (expr opts body) fun t s'' => I.good s'' t)
    (hgeneralize : ∀ {s' x t}, I.inv s' → Q x →
      I.Keeps s' (generalizeFunction name scope x t) fun _ _ => True) :
    I.Keeps s (stmt opts (.funDecl name formals (some body) hint pos scope bodyScope))
      fun _ _ => True := by
  rw [stmt_funDecl]
  refine Action.ends_get_bind ?_
  refine Action.ends_modify_bind ?_
  have h0 : I.At owner { s with queue := [] } := ⟨P.emptied h.inv, h.owner⟩
  have hdecl : I.Keeps { s with queue := [] }
      (functionDecl opts name formals body pos scope bodyScope) fun _ _ => True := by
    refine P.bind h0 (P.functionType h0 hb (hhead _ h0) hbody) fun r s1 h1 _ hr => ?_
    refine P.bind h1 (hgeneralize h1.inv hr) fun _ s2 h2 _ _ => ?_
    refine P.bind h2 (P.readTable h2.inv) fun t s3 h3 _ _ => ?_
    exact P.bind h3 (P.record h3.inv) fun _ s4 h4 _ _ => P.pure h4 trivial
  -- what was queued before the function is taken up again
  refine Action.Ends.bind (hdecl.mono (fun _ _ => id) (fun _ _ => P.failed_anew) fun _ => id)
    fun t s1 ⟨h1, hl1, _⟩ => ?_
  refine Action.ends_modify_bind ?_
  exact Action.ends_pure ⟨P.resumed h.inv h1, P.later_of_returns (P.later_returns hl1 :), trivial⟩

/-- A top-level statement keeps the invariant, and leaves the queue empty if it succeeds. -/
theorem topLevel (R : Rules opts I) {t : Stmt Span} (ht : Stmt.Every I.ok owner t)
    (h : I.At owner s) : I.Keeps s (topLevel opts t) fun _ s' => s'.queue = [] := by
  unfold Check.topLevel
  refine P.bind h (R.stmt t ht h) fun u s1 h1 _ _ => ?_
  refine Action.ends_get_bind ?_
  have hlast : ∀ {s'}, I.At owner s' → s'.queue = [] →
      I.Keeps s' (Check.readTable fun T => T.checkedResolve u) fun _ s' => s'.queue = [] :=
    fun h' hq => (P.readTable h'.inv).imp fun _ _ _ _ hs => hs.1 ▸ hq
  dsimp only
  split
  · exact P.bind h1 (P.solve h1.inv) fun _ s2 h2 _ hq => hlast h2 hq
  · rename_i hq
    exact hlast h1 (by simpa using hq)

end Stepwise

/-- A function declaration keeps an invariant that every generalization keeps. -/
theorem Pointwise.function {I : Invariant} (P : Pointwise I) {owner : Option String}
    {s : CheckState} {opts : CheckOptions} {name : String} {formals : List (Formal Span)}
    {body : Expr Span} {hint : Option Ty} {pos : Span} {scope bodyScope : ScopeId}
    (h : I.At owner s) (hb : I.okPos body.pos)
    (hhead : ∀ s', I.At owner s' →
      I.Keeps s' (announce name formals pos scope bodyScope) fun _ _ => True)
    (hbody : ∀ s', I.At (some name) s' → I.Keeps s' (expr opts body) fun t s'' => I.good s'' t) :
    I.Keeps s (stmt opts (.funDecl name formals (some body) hint pos scope bodyScope))
      fun _ _ => True :=
  P.toStepwise.function (Q := fun _ => True) h hb hhead hbody fun h _ => P.generalize h

end TypeInference.Check
