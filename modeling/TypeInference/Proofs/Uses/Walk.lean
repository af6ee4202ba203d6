import TypeInference.Proofs.Check.Obligations
import TypeInference.Proofs.Generalization.Walk
import TypeInference.Proofs.Uses.Instance

/-!
# The walk traces uses

`Traced s s'`: between the states `s` and `s'` of a walk filled slots stayed as they were, empty
ones were filled with types that quantify over nothing, and for every symbol that was used an
instance of its slot was taken. The walk over a statement in a region keeps it (`tracing_rules`),
for no function declared inside a region is generalized.

A function of the root scope keeps it up to its generalization (`trace_functionType`). Until then
its slot stands as it stood when the function was announced, and its type is demanded to be equal to
an instance of this slot (`Declared`).
-/

namespace TypeInference

open VarTable ScopeTree

theorem Event.uses_append (es fs : List Event) :
    Event.uses (es ++ fs) = Event.uses es ++ Event.uses fs :=
  List.filterMap_append ..

namespace Check

/-! ## Steps that keep slots -/

/-- The type was taken for an instance of the symbol's slot. -/
def Taken (s : CheckState) (u : SymbolId × Ty) : Prop :=
  ∃ σ, s.scopes.scheme? u.1 = some σ ∧ s.table.Takes σ u.2

/-- Slots are kept and uses are taken from them (module doc). -/
structure Traced (s s' : CheckState) : Prop where
  wf : s'.table.Wf
  grows : s.table.Extends s'.table
  scopes : s'.scopes.scopes = s.scopes.scopes
  kept : ∀ y σ, s.scopes.scheme? y = some σ → s'.scopes.scheme? y = some σ
  filled : ∀ y σ, s'.scopes.scheme? y = some σ →
    s.scopes.scheme? y = some σ ∨ σ.vars = [] ∧ s'.table.Minted σ.ty
  events : ∃ es, s'.events = es ++ s.events ∧ ∀ u ∈ Event.uses es, Taken s' u

namespace Traced

variable {s s' s'' : CheckState}

theorem taken (h : Traced s s') {u : SymbolId × Ty} (hu : Taken s u) : Taken s' u := by
  obtain ⟨σ, hσ, ht⟩ := hu
  exact ⟨σ, h.kept _ σ hσ, ht.mono_table h.grows⟩

theorem mem_events (h : Traced s s') {e : Event} (he : e ∈ s.events) : e ∈ s'.events := by
  obtain ⟨es, hes, -⟩ := h.events
  rw [hes]
  exact List.mem_append_right es he

/-- A step that leaves slots alone and uses no symbol. -/
theorem of_quiet (h' : s'.table.Wf) (he : s.table.Extends s'.table) (hs : s'.scopes = s.scopes)
    (hev : ∃ es, s'.events = es ++ s.events ∧ Event.uses es = []) : Traced s s' := by
  obtain ⟨es, hes, hu⟩ := hev
  refine ⟨h', he, by rw [hs], fun y σ hσ => by rwa [hs], fun y σ hσ => .inl (by rwa [hs] at hσ),
    es, hes, ?_⟩
  rw [hu]
  exact fun u hm => by cases hm

/-- A step that touches neither the table nor a slot nor the events. -/
theorem of_eq (h : s.table.Wf) (ht : s'.table = s.table) (hs : s'.scopes = s.scopes)
    (he : s'.events = s.events) : Traced s s' :=
  .of_quiet (ht ▸ h) (by rw [ht]; exact .refl h.toLinked) hs ⟨[], he, rfl⟩

theorem refl (h : s.table.Wf) : Traced s s := .of_eq h rfl rfl rfl

theorem trans (h : Traced s s') (h' : Traced s' s'') : Traced s s'' where
  wf := h'.wf
  grows := h.grows.trans h'.grows
  scopes := h'.scopes.trans h.scopes
  kept y σ hσ := h'.kept y σ (h.kept y σ hσ)
  filled y σ hσ := by
    obtain hσ | hσ := h'.filled y σ hσ
    · exact (h.filled y σ hσ).imp_right fun hm => ⟨hm.1, hm.2.mono h'.grows.size_le⟩
    · exact .inr hσ
  events := by
    obtain ⟨es, hes, hu⟩ := h.events
    obtain ⟨es', hes', hu'⟩ := h'.events
    refine ⟨es' ++ es, by rw [hes', hes, List.append_assoc], fun u hm => ?_⟩
    rw [Event.uses_append, List.mem_append] at hm
    exact hm.elim (hu' u) fun hm => h'.taken (hu u hm)

end Traced

/-- What the walk over a statement in the region `V` does to slots. -/
def tracing (V : Place) : Invariant where
  inv s := s.table.Wf ∧ s.scopes.scopes = V.tree.scopes
  later s s' := Traced s s' ∧ s'.returns = s.returns
  failed s _ s' := Traced s s'
  fault _ := True
  goodVar _ _ := True
  ok := Placed V
  okScope _ := True
  okPos _ := True

theorem tracing_laws (V : Place) : Laws (tracing V) where
  later_refl h := ⟨.refl h.1, rfl⟩
  later_trans h h' := ⟨h.1.trans h'.1, h'.2.trans h.2⟩
  later_returns h := h.2
  later_good _ _ := trivial
  later_failed h h' := h.1.trans h'
  fail h _ := .refl h.1
  pos _ _ := trivial

section
variable {V : Place} {s s' : CheckState} {owner : Option String}

/-! ## Operations -/

/-- The invariant along a step. -/
theorem Traced.inv (h : Traced s s') (hs : (tracing V).inv s) : (tracing V).inv s' :=
  ⟨h.wf, h.scopes.trans hs.2⟩

theorem trace_symbolScheme {x : SymbolId} (h : (tracing V).inv s) :
    (tracing V).Keeps s (symbolScheme x) fun σ s' => s'.scopes.scheme? x = some σ := by
  refine symbolScheme_ends (fun σ hσ => ⟨h, (tracing_laws V).later_refl h, hσ⟩) (fun y hy hn => ?_)
    fun _ _ => trivial
  have hempty : s.scopes.scheme? x = none := by rw [scheme?, hy, Option.bind_some, hn]
  have hset := scheme?_setScheme_of_symbol hy (.mono (.var s.table.size))
  have ht : Traced s { s with
      table := s.table.mint.2, scopes := s.scopes.setScheme x (.mono (.var s.table.size)) } := by
    refine ⟨h.1.mint, h.1.extends_mint, rfl, fun z σ hσ => ?_, fun z σ hσ => ?_, [], rfl,
      fun u hu => by cases hu⟩
    · rw [hset, if_neg, hσ]
      rintro rfl
      rw [hempty] at hσ
      cases hσ
    · rw [hset] at hσ
      split at hσ
      · cases hσ
        refine .inr ⟨rfl, fun v hv => ?_⟩
        obtain rfl := List.mem_singleton.1 hv
        simp
      · exact .inl hσ
  exact ⟨ht.inv h, ⟨ht, rfl⟩, (hset x).trans (if_pos rfl)⟩

theorem trace_instantiate {σ : Scheme} (h : (tracing V).inv s) :
    (tracing V).Keeps s (onTable (instantiate σ)) fun t s' => s'.table.Takes σ t :=
  onTable_ends ((h.1.instantiate_takes σ).mono (fun _ _ ⟨h', he, ht⟩ =>
    ⟨⟨h', h.2⟩, ⟨.of_quiet h' he rfl ⟨[], rfl, rfl⟩, rfl⟩, ht⟩) (fun _ _ => False.elim) fun _ => id)

theorem trace_solveQueue {opts : CheckOptions} (h : (tracing V).inv s) :
    (tracing V).Keeps s (solveQueue opts) fun _ _ => True := by
  refine solveQueue_ends ((Solve.solve_ends h.1 opts.maxPasses s.queue).mono
    (fun _ T' ⟨⟨h', he⟩, _⟩ => ?_) (fun _ T' ⟨h', he⟩ => ?_) fun _ => id)
  · exact ⟨⟨h', h.2⟩, ⟨.of_quiet h' he rfl ⟨[], rfl, rfl⟩, rfl⟩, trivial⟩
  · exact .of_quiet h' he rfl ⟨[], rfl, rfl⟩

theorem trace_demand {c : Constraint} {o : Origin} (h : (tracing V).inv s) :
    (tracing V).Keeps s (demand c o) fun _ s' => .demand ⟨c, o⟩ ∈ s'.events :=
  demand_ends ⟨h, ⟨.of_quiet h.1 (.refl h.1.toLinked) rfl ⟨[_], rfl, rfl⟩, rfl⟩,
    List.mem_cons_self⟩

theorem tracing_operations (V : Place) : Operations (tracing V) where
  toLaws := tracing_laws V
  fault _ := trivial
  goodVar _ _ := trivial
  okScope _ := trivial
  fresh h := fresh_ends ⟨⟨h.1.mint, h.2⟩,
    ⟨.of_quiet h.1.mint h.1.extends_mint rfl ⟨[], rfl, rfl⟩, rfl⟩, trivial⟩
  demand h _ := (trace_demand h).imp fun _ _ _ _ _ => trivial
  record h := record_ends ⟨h, ⟨.of_eq h.1 rfl rfl rfl, rfl⟩, trivial⟩
  note {_ e} h _ hu := note_ends ⟨h, ⟨.of_quiet h.1 (.refl h.1.toLinked) rfl ⟨[e], rfl, hu⟩, rfl⟩,
    trivial⟩
  slot h := trace_symbolScheme h
  use {s pos x} e he h := by
    have L := tracing_laws V
    refine L.bind ⟨h, rfl⟩ (trace_symbolScheme h) fun σ s1 h1 _ hσ => ?_
    refine L.bind h1 (trace_instantiate h1.inv) fun t s2 h2 hl2 ht => ?_
    have hσ2 := hl2.1.kept x σ hσ
    have hn : (tracing V).Keeps s2 (note (e t)) fun _ _ => True := by
      refine note_ends ⟨h2.inv, ⟨⟨h2.inv.1, .refl h2.inv.1.toLinked, rfl, fun _ _ => id,
        fun _ _ => .inl, [e t], rfl, fun u hu => ?_⟩, rfl⟩, trivial⟩
      have hu : u = (x, t) := by
        obtain rfl | rfl := he <;> exact List.mem_singleton.1 hu
      subst hu
      exact ⟨σ, hσ2, ht⟩
    exact L.bind h2 hn fun _ s3 h3 _ _ => L.pure h3 trivial

/-! ## Functions -/

/-- The symbol and the type of a function that is announced: its slot is filled, and if the slot is
that of no generalized function, the type is demanded to be equal to the one in the slot. -/
structure Declared (V : Place) (scope : ScopeId) (name : String) (r : SymbolId × Ty)
    (s : CheckState) : Prop where
  symbol : V.tree.lookup? scope name = some r.1
  slot : ∃ σ, s.scopes.scheme? r.1 = some σ ∧
    (σ.vars = [] → ∃ o, Event.demand ⟨.equal r.2 σ.ty, o⟩ ∈ s.events)

theorem Declared.mono {scope : ScopeId} {name : String} {r : SymbolId × Ty}
    (h : Declared V scope name r s) (ht : Traced s s') : Declared V scope name r s' := by
  obtain ⟨σ, hσ, hd⟩ := h.slot
  exact ⟨h.symbol, σ, ht.kept _ σ hσ, fun hv => (hd hv).imp fun _ => ht.mem_events⟩

theorem trace_announce (h : (tracing V).At owner s) {name : String}
    {formals : List (Formal Span)} {pos : Span} {scope bodyScope : ScopeId} :
    (tracing V).Keeps s (announce name formals pos scope bodyScope) fun r s' =>
      Declared V scope name (r.1, r.2.1) s' := by
  have O := tracing_operations V
  unfold announce
  refine O.bind h (O.bindFormals formals h fun _ _ => trivial) fun ps s1 h1 _ _ => ?_
  refine O.bind h1 (O.lookup h1.inv trivial) fun x s2 h2 hl2 ⟨hs2, hx⟩ => ?_
  rw [lookup?_congr h1.inv.2] at hx
  refine O.bind h2 (O.fresh h2.inv) fun result s3 h3 _ _ => ?_
  refine O.bind h3 (trace_symbolScheme h3.inv) fun σ s4 h4 _ hσ => ?_
  refine O.bind h4 (trace_instantiate h4.inv) fun declared s5 h5 hl5 ht => ?_
  refine O.bind h5 (trace_demand h5.inv) fun _ s6 h6 hl6 hd => ?_
  refine O.bind h6 (O.note h6.inv rfl rfl) fun _ s7 h7 hl7 _ => ?_
  refine O.pure h7 ⟨hx, σ, (hl5.1.trans (hl6.1.trans hl7.1)).kept _ σ hσ, fun hv => ?_⟩
  rw [← ht.mono hv]
  exact ⟨_, hl7.1.mem_events hd⟩

/-- A function up to its generalization. -/
theorem trace_functionType {opts : CheckOptions} {name : String} {formals : List (Formal Span)}
    {body : Expr Span} {pos : Span} {scope bodyScope : ScopeId} (h : (tracing V).At owner s)
    (hbody : ∀ s', (tracing V).At (some name) s' →
      (tracing V).Keeps s' (expr opts body) fun t s'' => (tracing V).good s'' t) :
    (tracing V).Keeps s (functionType opts name formals body pos scope bodyScope) fun r s' =>
      Declared V scope name r s' := by
  have O := tracing_operations V
  unfold functionType
  refine O.bind h (trace_announce h) fun r s1 h1 _ hr1 => ?_
  -- while the body is walked the function is open
  refine Action.ends_modify_bind ?_
  have ht2 : Traced s1 { s1 with returns := (name, r.2.2) :: s1.returns } :=
    .of_eq h1.inv.1 rfl rfl rfl
  have h2 : (tracing V).At (some name) { s1 with returns := (name, r.2.2) :: s1.returns } :=
    ⟨ht2.inv h1.inv, rfl⟩
  refine Action.Ends.bind ((hbody _ h2).mono (fun _ _ => id) (fun _ _ => ht2.trans) fun _ => id)
    fun t s3 ⟨hi3, ⟨ht3, hret3⟩, _⟩ => ?_
  refine Action.ends_modify_bind ?_
  have hret : s3.returns.tail = s1.returns := by rw [hret3]; rfl
  rw [hret]
  have ht4 : Traced s1 { s3 with returns := s1.returns } :=
    (ht2.trans ht3).trans (.of_eq ht3.wf rfl rfl rfl)
  have h4 : (tracing V).At owner { s3 with returns := s1.returns } :=
    ⟨ht4.inv h1.inv, h1.owner⟩
  have hrest : (tracing V).Keeps { s3 with returns := s1.returns } (do
      note (.leave pos)
      demandEqual r.2.2 t (.fnBody pos body.pos)
      solveQueue opts
      return (r.1, r.2.1)) fun r' _ => r' = (r.1, r.2.1) := by
    refine O.bind h4 (O.note h4.inv rfl rfl) fun _ s5 h5 _ _ => ?_
    refine O.bind h5 (O.demand h5.inv ⟨_, rfl, trivial⟩) fun _ s6 h6 _ _ => ?_
    exact O.bind h6 (trace_solveQueue h6.inv) fun _ s7 h7 _ _ => O.pure h7 rfl
  refine hrest.mono (fun r' s' ⟨hi', hl', he⟩ => ?_) (fun _ _ => ht4.trans) fun _ => id
  subst he
  have ht' := ht4.trans hl'.1
  exact ⟨hi', ⟨ht', hl'.2⟩, hr1.mono ht'⟩

/-- A function inside a statement is not generalized, and solves a queue of its own. -/
theorem trace_function (hV : V.Bound) (h : (tracing V).At owner s) {opts : CheckOptions}
    {name : String} {formals : List (Formal Span)} {body : Expr Span} {hint : Option Ty}
    {pos : Span} {scope bodyScope : ScopeId} (hs : V.Holds scope)
    (hbody : ∀ s', (tracing V).At (some name) s' →
      (tracing V).Keeps s' (expr opts body) fun t s'' => (tracing V).good s'' t) :
    (tracing V).Keeps s (stmt opts (.funDecl name formals (some body) hint pos scope bodyScope))
      fun _ _ => True := by
  have O := tracing_operations V
  have hqueue : ∀ {s : CheckState} (_ : (tracing V).At owner s) (q : List Obligation),
      (tracing V).Keeps s (modify fun s => { s with queue := q }) fun _ _ => True := fun h q =>
    Action.ends_modify ⟨h.inv, ⟨.of_eq h.inv.1 rfl rfl rfl, rfl⟩, trivial⟩
  rw [stmt_funDecl]
  refine Action.ends_get_bind ?_
  refine O.bind h (hqueue h []) fun _ s1 h1 _ _ => ?_
  unfold functionDecl
  simp only [bind_assoc]
  refine O.bind h1 (trace_functionType h1 hbody) fun r s2 h2 _ _ => ?_
  refine O.bind h2 (Q := fun _ _ => True) ?_ fun _ s3 h3 _ _ => ?_
  · refine (ends_generalizeFunction_inner hV h2.inv.2 hs).mono ?_ (fun _ _ => False.elim)
      fun _ => id
    rintro _ _ rfl
    exact ⟨h2.inv, O.later_refl h2.inv, trivial⟩
  refine O.bind h3 (O.readTable h3.inv) fun t s4 h4 _ _ => ?_
  refine O.bind h4 (O.record h4.inv) fun _ s5 h5 _ _ => ?_
  simp only [pure_bind]
  exact O.bind h5 (hqueue h5 s.queue) fun _ s6 h6 _ _ => O.pure h6 trivial

/-- What the walk over a statement of the region does to slots. -/
theorem tracing_rules (hV : V.Bound) (opts : CheckOptions) : Rules opts (tracing V) :=
  (tracing_operations V).rules opts fun h hp _ hbody => trace_function hV h hp.1 hbody

end

end Check

end TypeInference
