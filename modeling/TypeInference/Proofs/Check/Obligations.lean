import TypeInference.Check.Result
import TypeInference.Program.Binding
import TypeInference.Program.Numbering
import TypeInference.Proofs.Check.Operations
import TypeInference.Proofs.Solve

/-!
# No obligation is lost

`Recorded s s'`: between the states `s` and `s'` of a walk every demand noted is either still in the
queue or holds. The walk keeps it, a function declaration included, which solves a queue of its own
(`recorded_function`). At the end of a top-level statement that succeeds the queue is solved, and
what holds goes on holding while later statements, also those that fail, make the table grow and
fill slots.

`Program.demands_hold`: every obligation recorded in a top-level statement that succeeds holds at
the end of the check.
-/

namespace TypeInference

open VarTable

/-! ## Slots and layouts -/

namespace ScopeTree

/-- Only the slot of a symbol that declares a layout matters to layouts. -/
theorem sameLayouts_setScheme {S : ScopeTree} {x : SymbolId} {σ : Scheme}
    (hx : (S.symbol? x).bind Solve.declaredFields? = none)
    (hσ : ∀ n fields, σ.ty ≠ .struct n fields) : S.SameLayouts (S.setScheme x σ) := by
  refine ⟨rfl, fun y => ?_⟩
  rw [symbol?_setScheme]
  split
  · rename_i hxy
    subst hxy
    rw [hx]
    cases S.symbol? x with
    | none => rfl
    | some z =>
      refine Option.eq_none_iff_forall_ne_some.2 fun fields hf => ?_
      obtain ⟨-, vars, n, hs⟩ := declaredFields?_eq_some.1 hf
      exact hσ n fields (by rw [Option.some.inj hs])
  · rfl

end ScopeTree

theorem Event.demands_append (es fs : List Event) :
    Event.demands (es ++ fs) = Event.demands es ++ Event.demands fs :=
  List.filterMap_append ..

namespace Check

/-! ## What is noted is queued or holds -/

/-- What holds in the first state holds in the second. -/
structure Grown (s s' : CheckState) : Prop where
  wf : s'.table.Wf
  grows : s.table.Extends s'.table
  layouts : s.scopes.SameLayouts s'.scopes

namespace Grown

variable {s s' s'' : CheckState}

theorem refl (h : s.table.Wf) : Grown s s := ⟨h, .refl h.toLinked, .refl _⟩

theorem trans (h : Grown s s') (h' : Grown s' s'') : Grown s s'' :=
  ⟨h'.wf, h.grows.trans h'.grows, h.layouts.trans h'.layouts⟩

theorem holds (h : Grown s s') (hw : s.table.Wf) {c : Constraint}
    (hc : c.Holds ⟨s.scopes, .builtin⟩ s.table) : c.Holds ⟨s'.scopes, .builtin⟩ s'.table :=
  (hc.mono hw h.wf h.grows).congr h.layouts

end Grown

/-- Every demand noted between the two states is in the queue or holds. -/
structure Recorded (s s' : CheckState) : Prop extends Grown s s' where
  queued : ∃ q es, s'.queue = s.queue ++ q ∧ s'.events = es ++ s.events ∧
    ∀ o ∈ Event.demands es, o ∈ q ∨ o.constraint.Holds ⟨s'.scopes, .builtin⟩ s'.table

theorem Recorded.refl {s : CheckState} (h : s.table.Wf) : Recorded s s :=
  ⟨.refl h, [], [], by simp, by simp, nofun⟩

theorem Recorded.trans {s s' s'' : CheckState} (h : Recorded s s') (h' : Recorded s' s'') :
    Recorded s s'' := by
  obtain ⟨q, es, hq, he, hd⟩ := h.queued
  obtain ⟨q', es', hq', he', hd'⟩ := h'.queued
  refine ⟨h.toGrown.trans h'.toGrown, q ++ q', es' ++ es,
    by rw [hq', hq, List.append_assoc], by rw [he', he, List.append_assoc], fun o ho => ?_⟩
  rw [Event.demands_append, List.mem_append] at ho
  rw [List.mem_append]
  rcases ho with ho | ho
  · exact (hd' o ho).imp_left .inr
  · exact (hd o ho).imp .inl (h'.toGrown.holds h.wf)

/-- A step that notes no demand. -/
theorem Recorded.of_quiet {s s' : CheckState} (hg : Grown s s') (hq : s'.queue = s.queue)
    (he : ∃ es, s'.events = es ++ s.events ∧ Event.demands es = []) : Recorded s s' := by
  obtain ⟨es, he, hd⟩ := he
  exact ⟨hg, [], es, by simp [hq], he, by simp [hd]⟩

/-- What was queued in the first state, and every demand noted since, holds; the queue is empty. -/
structure Settled (s s' : CheckState) : Prop extends Grown s s' where
  queue : s'.queue = []
  settled : ∃ es, s'.events = es ++ s.events ∧ ∀ o, o ∈ s.queue ∨ o ∈ Event.demands es →
    o.constraint.Holds ⟨s'.scopes, .builtin⟩ s'.table

theorem Recorded.settled {s s' s'' : CheckState} (h : Recorded s s') (h' : Settled s' s'') :
    Settled s s'' := by
  obtain ⟨q, es, hq, he, hd⟩ := h.queued
  obtain ⟨es', he', hs⟩ := h'.settled
  refine ⟨h.toGrown.trans h'.toGrown, h'.queue, es' ++ es,
    by rw [he', he, List.append_assoc], fun o ho => ?_⟩
  rw [Event.demands_append, List.mem_append] at ho
  rw [hq] at hs
  rcases ho with ho | ho | ho
  · exact hs o (.inl (List.mem_append_left q ho))
  · exact hs o (.inr ho)
  · rcases hd o ho with ho | ho
    · exact hs o (.inl (List.mem_append_right s.queue ho))
    · exact h'.toGrown.holds h.wf ho

/-- With an empty queue all that was noted holds. -/
theorem Recorded.settled_of_queue {s s' : CheckState} (h : Recorded s s') (hq : s'.queue = []) :
    Settled s s' :=
  h.settled ⟨.refl h.wf, hq, [], rfl, by simp [hq, Event.demands]⟩

theorem Settled.recorded {s s' s'' : CheckState} (h : Settled s s') (h' : Recorded s' s'')
    (hq : s''.queue = []) : Settled s s'' := by
  have h'' := h'.settled_of_queue hq
  obtain ⟨es, he, hs⟩ := h.settled
  obtain ⟨es', he', hs'⟩ := h''.settled
  refine ⟨h.toGrown.trans h''.toGrown, hq, es' ++ es,
    by rw [he', he, List.append_assoc], fun o ho => ?_⟩
  rw [Event.demands_append, List.mem_append] at ho
  rcases ho with ho | ho | ho
  · exact h''.toGrown.holds h.wf (hs o (.inl ho))
  · exact hs' o (.inr ho)
  · exact h''.toGrown.holds h.wf (hs o (.inr ho))

/-- A queue put aside and taken up again after all since then was settled. -/
theorem Settled.aside {s s' : CheckState} (h : Settled { s with queue := [] } s') :
    Recorded s { s' with queue := s.queue } := by
  obtain ⟨es, he, hs⟩ := h.settled
  exact ⟨⟨h.wf, h.grows, h.layouts⟩, [], es, by simp, he, fun o ho => .inr (hs o (.inr ho))⟩

/-- The walk keeps tables well-formed and demands recorded; nothing is asked of the program. -/
def obligations : Invariant where
  inv s := s.table.Wf
  later s s' := Recorded s s' ∧ s'.returns = s.returns
  failed s _ s' := Grown s s'
  fault _ := True
  goodVar _ _ := True
  ok _ _ := True
  okScope _ := True
  okPos _ := True

theorem obligations_laws : Laws obligations where
  later_refl h := ⟨.refl h, rfl⟩
  later_trans h h' := ⟨h.1.trans h'.1, h'.2.trans h.2⟩
  later_returns h := h.2
  later_good _ _ := trivial
  later_failed h h' := h.1.toGrown.trans h'
  fail h _ := .refl h
  pos _ _ := trivial

section
variable {s s' : CheckState} {owner : Option String}

theorem keeps_fresh (h : s.table.Wf) : obligations.Keeps s fresh fun _ _ => True :=
  fresh_ends ⟨h.mint, ⟨.of_quiet ⟨h.mint, h.extends_mint, .refl _⟩ rfl ⟨[], rfl, rfl⟩, rfl⟩,
    trivial⟩

theorem keeps_demand {c : Constraint} {o : Origin} (h : s.table.Wf) :
    obligations.Keeps s (demand c o) fun _ s' => s'.queue = s.queue ++ [⟨c, o⟩] := by
  refine demand_ends ⟨h, ⟨⟨⟨h, .refl h.toLinked, .refl _⟩, [⟨c, o⟩], [.demand ⟨c, o⟩], rfl, rfl,
    fun d hd => .inl ?_⟩, rfl⟩, rfl⟩
  simpa [Event.demands] using hd

theorem keeps_note {e : Event} (h : s.table.Wf) (he : Event.demands [e] = []) :
    obligations.Keeps s (note e) fun _ _ => True :=
  note_ends ⟨h, ⟨.of_quiet ⟨h, .refl h.toLinked, .refl _⟩ rfl ⟨[e], rfl, he⟩, rfl⟩, trivial⟩

theorem keeps_record {pos : Span} {t : Ty} (h : s.table.Wf) :
    obligations.Keeps s (record pos t) fun _ s' => s'.queue = s.queue :=
  record_ends ⟨h, ⟨.of_quiet ⟨h, .refl h.toLinked, .refl _⟩ rfl ⟨[], rfl, rfl⟩, rfl⟩, rfl⟩

theorem keeps_symbolScheme {x : SymbolId} (h : s.table.Wf) :
    obligations.Keeps s (symbolScheme x) fun σ s' => s'.scopes.scheme? x = some σ := by
  refine symbolScheme_ends (fun σ hσ => ⟨h, ⟨.refl h, rfl⟩, hσ⟩) (fun y hy hn => ?_)
    fun _ _ => trivial
  have hl : s.scopes.SameLayouts (s.scopes.setScheme x (.mono (.var s.table.size))) := by
    refine ScopeTree.sameLayouts_setScheme ?_ nofun
    rw [hy, Option.bind_some]
    exact Option.eq_none_iff_forall_ne_some.2 fun fields hf => by
      obtain ⟨-, vars, n, hs⟩ := declaredFields?_eq_some.1 hf
      rw [hn] at hs
      cases hs
  refine ⟨h.mint, ⟨.of_quiet ⟨h.mint, h.extends_mint, hl⟩ rfl ⟨[], rfl, rfl⟩, rfl⟩, ?_⟩
  simp [ScopeTree.scheme?, ScopeTree.symbol?_setScheme, hy]

theorem keeps_instantiate {σ : Scheme} (h : s.table.Wf) :
    obligations.Keeps s (onTable (instantiate σ)) fun t _ =>
      ∀ n fields, σ.ty = .struct n fields → ∃ fields', t = .struct n fields' := by
  refine onTable_ends ((h.instantiate_ends σ).mono (fun t T' ⟨h', hm, known, _, hi⟩ => ?_)
    (fun _ _ => False.elim) fun _ _ => trivial)
  refine ⟨h', ⟨.of_quiet ⟨h', hm.extends h.toLinked, .refl _⟩ rfl ⟨[], rfl, rfl⟩, rfl⟩,
    fun n fields hσ => ?_⟩
  by_cases hv : σ.vars = []
  · exact ⟨fields, by rw [hi.mono hv, hσ]⟩
  · have ht := (hi.poly hv).1
    rw [hσ] at ht
    exact ⟨_, ht⟩

theorem obligations_operations : Operations obligations where
  toLaws := obligations_laws
  fault _ := trivial
  goodVar _ _ := trivial
  okScope _ := trivial
  fresh h := keeps_fresh h
  demand h _ := (keeps_demand h).imp fun _ _ _ _ _ => trivial
  record h := (keeps_record h).imp fun _ _ _ _ _ => trivial
  note h hd _ := keeps_note h hd
  slot h := keeps_symbolScheme h
  use e he h := by
    have L := obligations_laws
    refine L.bind ⟨h, rfl⟩ (keeps_symbolScheme h) fun σ s1 h1 _ _ => ?_
    refine L.bind h1 (keeps_instantiate h1.inv) fun t s2 h2 _ _ => ?_
    refine L.bind h2 (keeps_note h2.inv ?_) fun _ s3 h3 _ _ => L.pure h3 trivial
    obtain rfl | rfl := he <;> rfl

theorem ends_solveQueue {opts : CheckOptions} (h : s.table.Wf) : (solveQueue opts).Ends s
    (fun _ s' => Settled s s' ∧ s'.returns = s.returns) (obligations.failed s) fun _ => True := by
  refine solveQueue_ends ((Solve.solve_ends h opts.maxPasses s.queue).mono
    (fun _ T' ⟨⟨h', he⟩, hq⟩ => ⟨⟨⟨h', he, .refl _⟩, rfl, [], rfl, fun o ho => ?_⟩, rfl⟩)
    (fun _ T' ⟨h', he⟩ => ⟨h', he, .refl _⟩) fun _ => id)
  exact (hq o (ho.resolve_right nofun)).holds

/-! ## Functions -/

/-- The type of the function is one; if its name is that of a declared layout, the two are demanded
to be equal. -/
structure Announced (x : SymbolId) (fnTy : Ty) (s : CheckState) : Prop where
  isFn : ∃ params result, fnTy = .fn params result
  refused : ∀ fields, (s.scopes.symbol? x).bind Solve.declaredFields? = some fields →
    ∃ n fields' o, ⟨.equal fnTy (.struct n fields'), o⟩ ∈ s.queue

theorem keeps_announce {name : String} {formals : List (Formal Span)} {pos : Span}
    {scope bodyScope : ScopeId} (h : obligations.At owner s) :
    obligations.Keeps s (announce name formals pos scope bodyScope) fun r s' =>
      Announced r.1 r.2.1 s' := by
  have L := obligations_operations
  unfold announce
  refine L.bind h (L.bindFormals formals h fun _ _ => trivial) fun params s1 h1 _ _ => ?_
  refine L.bind h1 (L.lookup h1.inv trivial) fun x s2 h2 _ _ => ?_
  refine L.bind h2 (keeps_fresh h2.inv) fun result s3 h3 _ _ => ?_
  refine L.bind h3 (keeps_symbolScheme h3.inv) fun σ s4 h4 _ hσ => ?_
  refine L.bind h4 (keeps_instantiate h4.inv) fun declared s5 h5 hl5 hd => ?_
  refine L.bind h5 (keeps_demand h5.inv) fun _ s6 h6 hl6 hq => ?_
  refine L.bind h6 (keeps_note h6.inv rfl) fun _ s7 h7 hl7 _ => ?_
  refine L.pure h7 ⟨⟨params, result, rfl⟩, fun fields hf => ?_⟩
  have hl := (hl5.1.layouts.trans hl6.1.layouts).trans hl7.1.layouts
  rw [hl.fields] at hf
  obtain ⟨y, hy, hf⟩ := Option.bind_eq_some_iff.1 hf
  obtain ⟨-, vars, n, hs⟩ := declaredFields?_eq_some.1 hf
  have hσ' : σ = ⟨vars, .struct n fields⟩ := by
    simpa [ScopeTree.scheme?, hy, hs] using hσ.symm
  obtain ⟨fields', rfl⟩ := hd n fields (by rw [hσ'])
  obtain ⟨q, es, hq7, -⟩ := hl7.1.queued
  refine ⟨n, fields', .fnSignature pos, ?_⟩
  rw [hq7, hq]
  simp

/-- A function whose demands are met is not named like a layout. -/
theorem Announced.declares_none {x : SymbolId} {fnTy : Ty} {s s' : CheckState}
    (h : Announced x fnTy s) (hl : s.scopes.SameLayouts s'.scopes)
    (hq : ∀ o ∈ s.queue, o.constraint.Holds ⟨s'.scopes, .builtin⟩ s'.table) :
    (s'.scopes.symbol? x).bind Solve.declaredFields? = none := by
  refine Option.eq_none_iff_forall_ne_some.2 fun fields hf => ?_
  rw [hl.fields] at hf
  obtain ⟨n, fields', o, ho⟩ := h.refused fields hf
  obtain ⟨params, result, rfl⟩ := h.isFn
  have hs : Ty.Same (s'.table.resolve (.fn params result)) (s'.table.resolve (.struct n fields')) :=
    hq _ ho
  cases hs

/-- A function is generalized over what its surroundings do not fix, or not at all. -/
theorem ends_generalizeFunction {name : String} {scope : ScopeId} {x : SymbolId} {t : Ty} :
    (generalizeFunction name scope x t).Ends s
      (fun _ s' => s' = s ∨ ∃ env, s.table.Minted t ∧ s' = { s with
        scopes := s.scopes.setScheme x (s.table.generalize t env)
        schemes := s.schemes.insert name (s.table.generalize t env) })
      (fun _ _ => False) fun _ => True := by
  unfold generalizeFunction envVars
  refine Action.ends_get_bind (Action.ends_require_bind (fun c _ => ?_) fun _ _ => trivial)
  split
  · simp only [bind_assoc, pure_bind]
    refine Action.ends_get_bind (Action.ends_require_bind (fun env _ => ?_) fun _ _ => trivial)
    refine Action.Ends.bind (readTable_ends (Q := fun σ s' => s' = s ∧
      s.table.checkedGeneralize t env.flatten = .ok σ) (fun σ hσ => ⟨rfl, hσ⟩)
      fun _ _ => trivial) ?_
    rintro σ s1 ⟨rfl, hσ⟩
    obtain ⟨hm, rfl⟩ := checkedGeneralize_eq_ok hσ
    exact Action.ends_modify (.inr ⟨_, hm, rfl⟩)
  · exact Action.ends_pure (.inl rfl)

/-- A step that is kept, seen from an earlier state. -/
theorem Recorded.keeps {α : Type} {x : CheckM α} {Q : α → CheckState → Prop} (h : Recorded s s')
    (hx : obligations.Keeps s' x Q) : x.Ends s'
      (fun a s'' => Recorded s s'' ∧ s''.returns = s'.returns ∧ Q a s'') (obligations.failed s)
      fun _ => True :=
  hx.mono (fun _ _ ⟨_, hl, hq⟩ => ⟨h.trans hl.1, hl.2, hq⟩)
    (fun _ _ => h.toGrown.trans) fun _ => id

/-- Generalizing a function whose name declares no layout changes none. -/
theorem keeps_generalizeFunction {name : String} {scope : ScopeId} {x : SymbolId} {fnTy : Ty}
    (h : obligations.At owner s) (hfn : ∃ params result, fnTy = .fn params result)
    (hx : (s.scopes.symbol? x).bind Solve.declaredFields? = none) :
    obligations.Keeps s (generalizeFunction name scope x fnTy) fun _ s' => s'.queue = s.queue := by
  refine ends_generalizeFunction.mono ?_ (fun _ _ => False.elim) fun _ => id
  rintro _ s' (rfl | ⟨env, -, rfl⟩)
  · exact ⟨h.inv, obligations_laws.later_refl h.inv, rfl⟩
  · have hty : ∀ n fields, (s.table.generalize fnTy env).ty ≠ .struct n fields := by
      obtain ⟨params, result, rfl⟩ := hfn
      intro n fields he
      cases he
    exact ⟨h.inv, ⟨.of_quiet ⟨h.inv, .refl h.inv.toLinked,
      ScopeTree.sameLayouts_setScheme hx hty⟩ rfl ⟨[], rfl, rfl⟩, rfl⟩, rfl⟩

/-- Up to its generalization a function meets all that its head and its body demand. -/
theorem ends_functionType {opts : CheckOptions} {name : String} {formals : List (Formal Span)}
    {body : Expr Span} {pos : Span} {scope bodyScope : ScopeId} (h : obligations.At owner s)
    (hbody : ∀ s', obligations.At (some name) s' →
      obligations.Keeps s' (expr opts body) fun t s'' => obligations.good s'' t) :
    (functionType opts name formals body pos scope bodyScope).Ends s
      (fun r s' => (Settled s s' ∧ s'.returns = s.returns) ∧
        (∃ params result, r.2 = .fn params result) ∧
        (s'.scopes.symbol? r.1).bind Solve.declaredFields? = none)
      (obligations.failed s) fun _ => True := by
  unfold functionType
  refine Action.Ends.bind (keeps_announce h) fun r s1 ⟨_, ⟨hr1, hret1⟩, hx⟩ => ?_
  -- from here on the state is compared with the one in which the function is announced
  refine Action.Ends.mono (E := obligations.failed s1) ?_ (fun _ _ => id)
    (fun _ _ => hr1.toGrown.trans) fun _ => id
  refine Action.ends_modify_bind ?_
  have hr2 : Recorded s1 { s1 with returns := (name, r.2.2) :: s1.returns } :=
    .of_quiet ⟨hr1.wf, .refl hr1.wf.toLinked, .refl _⟩ rfl ⟨[], rfl, rfl⟩
  refine Action.Ends.bind (hr2.keeps (hbody _ ⟨hr2.wf, rfl⟩)) fun t s3 ⟨hr3, hret3, _⟩ => ?_
  refine Action.ends_modify_bind ?_
  have hret : s3.returns.tail = s.returns := by
    rw [hret3]
    exact hret1
  rw [hret]
  have hr4 : Recorded s1 { s3 with returns := s.returns } :=
    hr3.trans (.of_quiet ⟨hr3.wf, .refl hr3.wf.toLinked, .refl _⟩ rfl ⟨[], rfl, rfl⟩)
  refine Action.Ends.bind (hr4.keeps (keeps_note hr4.wf rfl)) fun _ s5 ⟨hr5, hret5, _⟩ => ?_
  refine Action.Ends.bind (hr5.keeps (keeps_demand hr5.wf)) fun _ s6 ⟨hr6, hret6, _⟩ => ?_
  refine Action.Ends.bind ((ends_solveQueue hr6.wf).mono (fun _ _ => id)
    (fun _ _ => hr6.toGrown.trans) fun _ => id) fun _ s7 ⟨hs7, hret7⟩ => ?_
  have hset := hr6.settled hs7
  refine Action.ends_pure ⟨⟨hr1.settled hset, by rw [hret7, hret6, hret5]⟩, hx.isFn, ?_⟩
  obtain ⟨es, -, hq⟩ := hset.settled
  exact hx.declares_none hset.layouts fun o ho => hq o (.inl ho)

/-- A function, generalized or not, meets all that its head and its body demand. -/
theorem ends_functionDecl {opts : CheckOptions} {name : String} {formals : List (Formal Span)}
    {body : Expr Span} {pos : Span} {scope bodyScope : ScopeId} (h : obligations.At owner s)
    (hbody : ∀ s', obligations.At (some name) s' →
      obligations.Keeps s' (expr opts body) fun t s'' => obligations.good s'' t) :
    (functionDecl opts name formals body pos scope bodyScope).Ends s
      (fun _ s' => Settled s s' ∧ s'.returns = s.returns) (obligations.failed s)
      fun _ => True := by
  unfold functionDecl
  refine Action.Ends.bind (ends_functionType h hbody) fun r s1 ⟨⟨hs1, hret1⟩, hfn, hnone⟩ => ?_
  -- the rest notes no demand and leaves the queue empty
  have h1 : obligations.At owner s1 := ⟨hs1.wf, hret1 ▸ h.owner⟩
  have L := obligations_laws
  have hrest : obligations.Keeps s1 (do
      generalizeFunction name scope r.1 r.2
      let t ← readTable fun T => T.checkedResolve r.2
      record pos t
      return t) fun _ s' => s'.queue = s1.queue := by
    refine L.bind h1 (keeps_generalizeFunction h1 hfn hnone) fun _ s2 h2 _ hq2 => ?_
    refine L.bind h2 (obligations_operations.readTable h2.inv) fun t s3 h3 _ ⟨hs3, _⟩ => ?_
    subst hs3
    exact L.bind h3 (keeps_record h3.inv) fun _ s4 h4 _ hq4 => L.pure h4 (hq4.trans hq2)
  refine hrest.mono (fun _ s2 ⟨_, ⟨hr2, hret2⟩, hq2⟩ => ?_) (fun _ _ => hs1.toGrown.trans)
    fun _ => id
  exact ⟨hs1.recorded hr2 (hq2.trans hs1.queue), hret2.trans hret1⟩

/-- A function declaration, which solves a queue of its own, leaves every demand recorded. -/
theorem recorded_function {opts : CheckOptions} {name : String} {formals : List (Formal Span)}
    {body : Expr Span} {hint : Option Ty} {pos : Span} {scope bodyScope : ScopeId}
    (h : obligations.At owner s) (hbody : ∀ s', obligations.At (some name) s' →
      obligations.Keeps s' (expr opts body) fun t s'' => obligations.good s'' t) :
    obligations.Keeps s (stmt opts (.funDecl name formals (some body) hint pos scope bodyScope))
      fun _ _ => True := by
  rw [stmt_funDecl]
  refine Action.ends_get_bind ?_
  refine Action.ends_modify_bind ?_
  have h0 : obligations.At owner { s with queue := [] } := ⟨h.inv, h.owner⟩
  have hdecl : (functionDecl opts name formals body pos scope bodyScope).Ends
      { s with queue := [] } (fun _ s' => Settled { s with queue := [] } s' ∧
        s'.returns = s.returns) (obligations.failed s) fun _ => True :=
    (ends_functionDecl h0 hbody).mono (fun _ _ => id)
      (fun _ _ hf => ⟨hf.wf, hf.grows, hf.layouts⟩) fun _ => id
  refine Action.Ends.bind hdecl fun t s1 ⟨hs1, hret1⟩ => ?_
  refine Action.ends_modify_bind ?_
  exact Action.ends_pure ⟨hs1.wf, ⟨hs1.aside, hret1⟩, trivial⟩

end

/-- The walk loses no obligation. -/
theorem obligations_rules (opts : CheckOptions) : Rules opts obligations :=
  obligations_operations.rules opts fun h _ _ hbody => recorded_function h hbody

/-! ## Top-level statements -/

section
variable {s : CheckState}

/-- A top-level statement that succeeds meets all its demands; one that fails leaves a grown table.
-/
theorem settled_topLevel (opts : CheckOptions) (t : Stmt Span) (h : s.table.Wf) :
    (topLevel opts t).Ends s (fun _ s' => Settled s s' ∧ s'.returns = s.returns)
      (obligations.failed s) fun _ => True := by
  have h0 : obligations.At _ s := ⟨h, rfl⟩
  have hok := Stmt.every_of_forall (fun _ _ => trivial : ∀ o n, obligations.ok o n)
    (s.returns.head?.map Prod.fst) t
  unfold topLevel
  refine Action.Ends.bind ((obligations_rules opts).stmt t hok h0)
    fun _ s1 ⟨_, ⟨hr1, hret1⟩, _⟩ => ?_
  refine Action.ends_get_bind ?_
  -- what is solved last, or an empty queue, settles the statement
  have hlast : ∀ {s' : CheckState}, Settled s s' ∧ s'.returns = s.returns →
      (readTable (fun T => T.checkedResolve ‹Ty›) : CheckM Ty).Ends s'
        (fun _ s' => Settled s s' ∧ s'.returns = s.returns) (obligations.failed s) fun _ => True :=
    fun hs => readTable_ends (fun _ _ => hs) fun _ _ => trivial
  dsimp only
  split
  · refine Action.Ends.bind ((ends_solveQueue hr1.wf).mono (fun _ _ => id)
      (fun _ _ => hr1.toGrown.trans) fun _ => id) fun _ s2 ⟨hs2, hret2⟩ => ?_
    exact hlast ⟨hr1.settled hs2, hret2.trans hret1⟩
  · rename_i hq
    exact hlast ⟨hr1.settled_of_queue (by simpa using hq), hret1⟩

end

section
variable {opts : CheckOptions}

/-- What one top-level statement leaves: a grown state, in which its demands hold if it succeeded.
-/
theorem outcome_settled {t : Stmt Span} {s s' : CheckState} {o : Outcome} (h : s.table.Wf)
    (ho : outcome opts t s = .ok (o, s')) : Grown s s' ∧ ((∃ τ, o.verdict = .ok τ) →
      ∀ d ∈ Event.demands o.events, d.constraint.Holds ⟨s'.scopes, .builtin⟩ s'.table) := by
  have ht := settled_topLevel (s := { s with events := [] }) opts t h
  obtain ⟨τ, rfl, hs, -⟩ | ⟨e, s1, rfl, rfl, hf⟩ := outcome_of_ends ht ho
  · obtain ⟨es, he, hd⟩ := hs.settled
    refine ⟨⟨hs.wf, hs.grows, hs.layouts⟩, fun _ d hm => hd d (.inr ?_)⟩
    simpa [he, Event.demands] using hm
  · refine ⟨⟨hf.wf, hf.grows, hf.layouts⟩, ?_⟩
    rintro ⟨_, hv⟩
    cases hv

/-- Demands met in one statement are met at the end of all. -/
theorem outcomes_settled : ∀ (ts : List (Stmt Span)) {s s' : CheckState} {os : List Outcome},
    s.table.Wf → outcomes opts ts s = .ok (os, s') → Grown s s' ∧ ∀ o ∈ os,
      (∃ τ, o.verdict = .ok τ) → ∀ d ∈ Event.demands o.events,
        d.constraint.Holds ⟨s'.scopes, .builtin⟩ s'.table
  | [], s, s', os, h, ho => by
    obtain ⟨rfl, rfl⟩ := Prod.mk.inj (Except.ok.inj ho)
    exact ⟨.refl h, nofun⟩
  | t :: ts, s, s', os, h, ho => by
    unfold outcomes at ho
    obtain ⟨⟨o, s1⟩, ho1, ho⟩ := Action.except_bind_eq_ok.1 ho
    obtain ⟨⟨os', s2⟩, ho2, ho⟩ := Action.except_bind_eq_ok.1 ho
    obtain ⟨rfl, rfl⟩ := Prod.mk.inj (Except.ok.inj ho)
    obtain ⟨hg, hd⟩ := outcome_settled h ho1
    obtain ⟨hg', hds⟩ := outcomes_settled ts hg.wf ho2
    exact ⟨hg.trans hg', List.forall_mem_cons.2
      ⟨fun hv d hm => hg'.holds hg.wf (hd hv d hm), hds⟩⟩

end

end Check

/-- Every obligation recorded while a top-level statement was checked, by the statement itself or in
a function declared at any depth in it, holds at the end of the check if the statement succeeded. -/
theorem Program.demands_hold (opts : CheckOptions) (P : Program Span) {R : CheckRun}
    (h : P.bind.1.checkRun opts P.bind.2 = .ok R) :
    ∀ o ∈ R.outcomes, (∃ t, o.verdict = .ok t) → ∀ d ∈ Event.demands o.events,
      d.constraint.Holds ⟨R.final.scopes, .builtin⟩ R.final.table := by
  unfold checkRun at h
  obtain ⟨⟨os, s⟩, ho, h⟩ := Action.except_bind_eq_ok.1 h
  obtain rfl := Except.ok.inj h
  exact (Check.outcomes_settled P.bind.1 wf_empty ho).2

/-- `type p = {x: int}; let v: p = p{3}; fun f(a) { fun g(b) { v.x + b }; g(a) }; v = true` -/
def layoutSample : Program Span := Program.number 0 [
  .typeDecl "p" (.struct none [("x", .int)]) none 0,
  .varDecl "v" (some (.con "p")) (.structInit "p" [.literal (.int 3) none] none 0) none 0 none,
  .funDecl "f" [⟨"a", none⟩] (some (.block
    [.funDecl "g" [⟨"b", none⟩] (some (.block [] (some (.binary .add
      (.field (.var "v" none 0 none) "x" none 0) (.var "b" none 0 none) none)) none 0))
      none none 0 0]
    (some (.call "g" none [.var "a" none 0 none] none 0)) none 0)) none none 0 0,
  .assign (.var "v" none 0 none) (.literal (.bool true) none) none]

theorem demands_hold_layoutSample : ∃ R,
    layoutSample.bind.1.checkRun ⟨2⟩ layoutSample.bind.2 = .ok R ∧
      R.outcomes.map (fun o => (o.verdict.toBool, (Event.demands o.events).length)) =
        [(true, 0), (true, 2), (true, 10), (false, 1)] ∧
      ∀ o ∈ R.outcomes, (∃ t, o.verdict = .ok t) → ∀ d ∈ Event.demands o.events,
        d.constraint.Holds ⟨R.final.scopes, .builtin⟩ R.final.table := by
  have h : (layoutSample.bind.1.checkRun ⟨2⟩ layoutSample.bind.2).toOption.map (fun R =>
      R.outcomes.map fun o => (o.verdict.toBool, (Event.demands o.events).length)) =
        some [(true, 0), (true, 2), (true, 10), (false, 1)] := by decide +kernel
  cases hR : layoutSample.bind.1.checkRun ⟨2⟩ layoutSample.bind.2 with
  | error f => rw [hR] at h; cases h
  | ok R =>
    rw [hR] at h
    exact ⟨R, rfl, Option.some.inj h, Program.demands_hold ⟨2⟩ layoutSample hR⟩

end TypeInference
