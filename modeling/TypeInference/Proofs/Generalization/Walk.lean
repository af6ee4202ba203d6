import TypeInference.Proofs.Check.Operations
import TypeInference.Proofs.Generalization.Slots

/-!
# The walk spares the quantified variables

`guarding V Q`: a walk over the nodes of one statement, placed in the region `V`, keeps the slots
guarded (`Guarded`), and every type that it handles, queues or holds a `return` to avoids `Q`. So
nothing that is solved on the way binds a variable of `Q` (`guarding_rules`).

A function declared in the root scope is walked over in the same way up to its generalization
(`guard_functionType`).
-/

namespace TypeInference

open VarTable ScopeTree

/-- The place is a region of a tree that a program was bound in. -/
structure Place.Bound (V : Place) : Prop where
  known : V.known = V.tree.Lasting
  root : ∃ c, V.tree.scope? rootScope = some c ∧ c.parent = none ∧ c.level = 1
  region : V.tree.Region V.firstScope V.endScope V.firstSymbol V.endSymbol
  closed : V.tree.SlotsClosed

theorem Place.Bound.parent?_root {V : Place} (hV : V.Bound) : V.tree.parent? rootScope = none := by
  obtain ⟨c, hc, hp, -⟩ := hV.root
  rw [parent?, hc, Option.bind_some, hp]

/-- The symbol is known around the region or one of its own. -/
def Place.Reaches (V : Place) (y : Nat) : Prop := V.known y ∨ V.Owns y

namespace Check

/-- The slots are guarded, and what is queued or open avoids the quantified variables. -/
structure Guarding (V : Place) (Q : List TyVar) (s : CheckState) : Prop
    extends Guarded V.tree V.firstSymbol V.endSymbol Q s where
  queue : ∀ o ∈ s.queue, ∀ t ∈ o.constraint.types, s.table.Avoids Q t
  returns : ∀ r ∈ s.returns, s.table.Avoids Q r.2

/-- What the walk over a statement in the region `V` keeps. -/
def guarding (V : Place) (Q : List TyVar) : Invariant where
  inv := Guarding V Q
  later s s' := Spares Q s.table s'.table ∧ s'.returns = s.returns
  failed _ _ := Guarded V.tree V.firstSymbol V.endSymbol Q
  fault _ := True
  goodVar s v := s.table.Avoids Q (.var v)
  ok := Placed V
  okScope _ := True
  okPos _ := True

section
variable {V : Place} {Q : List TyVar} {s s' : CheckState} {owner : Option String}

theorem good_iff {t : Ty} : (guarding V Q).good s t ↔ s.table.Avoids Q t := avoids_iff.symm

theorem guarding_laws : Laws (guarding V Q) where
  later_refl h := ⟨.refl h.wf h.unbound, rfl⟩
  later_trans h h' := ⟨h.1.trans h'.1, h'.2.trans h.2⟩
  later_returns h := h.2
  later_good h hv := h.1.avoids _ hv
  later_failed _ h := h
  fail h _ := h.toGuarded
  pos _ _ := trivial

theorem Guarding.onTable (h : Guarding V Q s) {T : VarTable} (hT : Spares Q s.table T) :
    Guarding V Q { s with table := T } :=
  ⟨h.toGuarded.onTable hT, fun o ho t ht => hT.avoids t (h.queue o ho t ht),
    fun r hr => hT.avoids _ (h.returns r hr)⟩

theorem Guarding.spares (h : Guarding V Q s) : Spares Q s.table s.table := .refl h.wf h.unbound

/-! ## Look-up -/

section
variable (hV : V.Bound)
include hV

theorem reaches_of_lookup {scope : Nat} (hs : scope = rootScope ∨ V.Holds scope) {name : String}
    {y : SymbolId} (hy : V.tree.lookup? scope name = some y) : V.Reaches y := by
  refine (hV.region.lookup hV.parent?_root hs hy).imp_left fun hr => ?_
  rw [hV.known]
  exact .inl ⟨name, hr⟩

/-- The name of a formal denotes a symbol of the region that is no function and no type. -/
theorem lookup?_of_formal {scope : ScopeId} {fs : List (Formal Span)} (hf : V.Formals scope fs)
    {f : Formal Span} (hm : f ∈ fs) {y : SymbolId} (hy : V.tree.lookup? scope f.name = some y) :
    V.Reaches y ∧ ¬ V.tree.IsHoisted y := by
  refine ⟨reaches_of_lookup hV (.inr hf.scope) hy, ?_⟩
  rintro ⟨z, hz, hk⟩
  obtain ⟨y', z', hy', hz', hk'⟩ := hf.bound f hm
  rw [lookup?_of_bindings (lt_of_bindings hy') hy'] at hy
  obtain rfl := Option.some.inj hy
  obtain rfl := Option.some.inj (hz.symm.trans hz')
  rw [hk'] at hk
  rcases hk with hk | hk <;> cases hk

/-- The slot of a symbol that can be reached avoids `Q`. -/
theorem Guarding.schemeAvoids (h : Guarding V Q s) {y : Nat} (hy : V.Reaches y) {σ : Scheme}
    (hσ : s.scopes.scheme? y = some σ) : s.table.SchemeAvoids Q σ := by
  by_cases hr : V.tree.Rooted y
  · exact h.slots y σ (.inl hr) hσ
  · rcases hy with hy | hy
    · rw [hV.known] at hy
      exact h.avoids_of_resting hV.closed hr (.inr (hy.resolve_left hr)) hσ
    · exact h.slots y σ (.inr hy) hσ

end

/-! ## Operations -/

theorem spares_mint (h : Guarding V Q s) : Spares Q s.table s.table.mint.2 :=
  h.wf.mints.spares h.wf h.wf.mint h.unbound

theorem avoids_new (h : Guarding V Q s) : s.table.mint.2.Avoids Q (.var s.table.size) :=
  h.wf.mints.avoids_new h.wf.mint h.unbound (Nat.le_refl _)

theorem guard_fresh (h : Guarding V Q s) :
    (guarding V Q).Keeps s fresh fun t s' => (guarding V Q).good s' t :=
  fresh_ends ⟨h.onTable (spares_mint h), ⟨spares_mint h, rfl⟩, good_iff.2 (avoids_new h)⟩

theorem guard_readTable {α : Type} {f : VarTable → Except Fault α} (h : Guarding V Q s) :
    (guarding V Q).Keeps s (readTable f) fun a s' => s' = s ∧ f s.table = .ok a :=
  readTable_ends (fun _ ha => ⟨h, ⟨h.spares, rfl⟩, rfl, ha⟩) fun _ _ => trivial

theorem guard_leader (h : Guarding V Q s) {t : Ty} (ht : s.table.Avoids Q t) :
    (guarding V Q).Keeps s (readTable fun T => T.checkedLeader t) fun l s' =>
      s' = s ∧ l = s.table.leader t ∧ s.table.Avoids Q l := by
  refine readTable_ends (fun l hl => ⟨h, ⟨h.spares, rfl⟩, rfl, ?_⟩) fun _ _ => trivial
  obtain ⟨hl', -⟩ | ⟨⟨f, hl'⟩, -⟩ := s.table.checkedLeader_cases t
  · obtain rfl : s.table.leader t = l := Except.ok.inj (hl'.symm.trans hl)
    exact ⟨rfl, h.wf.avoids_leader.2 ht⟩
  · rw [hl] at hl'
    cases hl'

theorem guard_demand (h : Guarding V Q s) {c : Constraint} {o : Origin}
    (hc : ∀ t ∈ c.types, s.table.Avoids Q t) :
    (guarding V Q).Keeps s (demand c o) fun _ _ => True := by
  refine demand_ends ⟨⟨h.toGuarded.congr rfl rfl rfl, fun p hp => ?_, h.returns⟩,
    ⟨h.spares, rfl⟩, trivial⟩
  rcases List.mem_append.1 hp with hp | hp
  · exact h.queue p hp
  · obtain rfl := List.mem_singleton.1 hp
    exact hc

theorem guard_note (h : Guarding V Q s) {e : Event} :
    (guarding V Q).Keeps s (note e) fun _ _ => True :=
  note_ends ⟨⟨h.toGuarded.congr rfl rfl rfl, h.queue, h.returns⟩, ⟨h.spares, rfl⟩, trivial⟩

theorem guard_record (h : Guarding V Q s) {pos : Span} {t : Ty} :
    (guarding V Q).Keeps s (record pos t) fun _ _ => True :=
  record_ends ⟨⟨h.toGuarded.congr rfl rfl rfl, h.queue, h.returns⟩, ⟨h.spares, rfl⟩, trivial⟩

theorem guard_instantiate (h : Guarding V Q s) {σ : Scheme} (hσ : s.table.SchemeAvoids Q σ) :
    (guarding V Q).Keeps s (onTable (instantiate σ)) fun t s' => (guarding V Q).good s' t :=
  onTable_ends ((h.wf.instantiate_spares h.unbound hσ).mono
    (fun _ _ ⟨hs, ha⟩ => ⟨h.onTable hs, ⟨hs, rfl⟩, good_iff.2 ha⟩) (fun _ _ => False.elim)
    fun _ => id)

theorem guard_lookup (h : Guarding V Q s) {scope : ScopeId} {name : String} {pos : Span} :
    (guarding V Q).Keeps s (lookup scope name pos) fun x _ =>
      V.tree.lookup? scope name = some x :=
  lookup_ends (fun _ hx => ⟨h, ⟨h.spares, rfl⟩, (lookup?_congr h.scopes _ _).symm.trans hx⟩)
    (fun _ => h.toGuarded) fun _ _ => trivial

/-- Reading a slot, which fills it if it is empty. -/
theorem guard_symbolScheme (hV : V.Bound) (h : Guarding V Q s) {x : Nat} (hx : V.Reaches x) :
    (guarding V Q).Keeps s (symbolScheme x) fun σ s' =>
      s'.scopes.scheme? x = some σ ∧ s'.table.SchemeAvoids Q σ := by
  refine symbolScheme_ends (fun σ hσ => ⟨h, ⟨h.spares, rfl⟩, hσ, h.schemeAvoids hV hx hσ⟩)
    (fun y hy hn => ?_) fun _ _ => trivial
  have hempty : s.scopes.scheme? x = none := by rw [scheme?, hy, Option.bind_some, hn]
  have ha : s.table.mint.2.SchemeAvoids Q (.mono (.var s.table.size)) := fun v hv _ => by
    obtain rfl := List.mem_singleton.1 hv
    exact avoids_new h
  have hset := (h.onTable (spares_mint h)).toGuarded.setScheme (x := x)
    ?_ ha (absurd rfl) fun n fields he => by cases he
  · refine ⟨⟨hset.congr rfl rfl rfl, (h.onTable (spares_mint h)).queue,
      (h.onTable (spares_mint h)).returns⟩, ⟨spares_mint h, rfl⟩, ?_, ha⟩
    rw [scheme?_setScheme, if_pos rfl, hy]
    rfl
  · -- an empty slot is that of a root symbol or was bound empty
    by_cases hr : V.tree.Rooted x
    · exact .inl hr
    · have hn : ¬ (V.tree.scheme? x).isSome := fun hs => by
        rw [← h.resting x hr (.inr hs), hempty] at hs
        cases hs
      rcases hx with hx | hx
      · rw [hV.known] at hx
        exact absurd (hx.resolve_left hr) hn
      · exact .inr ⟨hx.2, hn⟩

/-- What is queued or open may be put aside for something else that avoids `Q`. -/
theorem Guarding.replace (h : Guarding V Q s) {os : List Obligation} {rs : List (String × Ty)}
    (ho : ∀ o ∈ os, ∀ t ∈ o.constraint.types, s.table.Avoids Q t)
    (hr : ∀ r ∈ rs, s.table.Avoids Q r.2) :
    Guarding V Q { s with queue := os, returns := rs } :=
  ⟨h.toGuarded.congr rfl rfl rfl, ho, hr⟩

theorem guard_solveQueue {opts : CheckOptions} (h : Guarding V Q s) :
    (guarding V Q).Keeps s (solveQueue opts) fun _ s' => s'.queue = [] := by
  have h' : Guarding V Q { s with queue := [] } := h.replace nofun h.returns
  have hs := Solve.solve_spares (S := ⟨s.scopes, .builtin⟩) h.wf h.unbound h.layouts
    opts.maxPasses s.queue h.queue
  exact solveQueue_ends (hs.mono (fun _ _ hT => ⟨h'.onTable hT, ⟨hT, rfl⟩, rfl⟩)
    (fun _ _ hT => (h'.onTable hT).toGuarded) fun _ => id)

/-! ## Reading slots -/

theorem guard_useSymbol (hV : V.Bound) (h : (guarding V Q).At owner s) (e : Ty → Event) {x : Nat}
    (hx : V.Reaches x) :
    (guarding V Q).Keeps s (useSymbol e x) fun t s' => (guarding V Q).good s' t := by
  have L := guarding_laws (V := V) (Q := Q)
  refine L.bind h (guard_symbolScheme hV h.inv hx) fun σ s1 h1 _ hσ => ?_
  refine L.bind h1 (guard_instantiate h1.inv hσ.2) fun t s2 h2 _ ht => ?_
  exact L.bind h2 (guard_note h2.inv) fun _ s3 h3 hl3 _ => L.pure h3 (L.goodTy hl3 ht)

theorem guard_calleeSymbol (hV : V.Bound) (h : (guarding V Q).At owner s) {name : String}
    {namePos pos : Span} {scope home : ScopeId} (hs : scope = rootScope ∨ V.Holds scope)
    (hf : s.scopes.find? scope name = some home) :
    (guarding V Q).Keeps s (calleeSymbol name namePos pos home) fun t s' =>
      (guarding V Q).good s' t := by
  refine guarding_laws.bind h (guard_lookup h.inv) fun x s1 h1 _ hx => ?_
  rw [find?_congr h.inv.scopes] at hf
  rw [lookup?_of_find? hf] at hx
  exact guard_useSymbol hV h1 _ (reaches_of_lookup hV hs hx)

/-- A slot that is read as it stands, that of a symbol which is no function and no type. -/
theorem guard_slotType (hV : V.Bound) (h : (guarding V Q).At owner s) {x : Nat} (hx : V.Reaches x)
    (hk : ¬ V.tree.IsHoisted x) : (guarding V Q).Keeps s (symbolScheme x) fun σ s' =>
      s'.table.Avoids Q σ.ty :=
  (guard_symbolScheme hV h.inv hx).imp fun _ _ h' _ hσ =>
    (h'.avoids_ty hσ.1 hσ.2).resolve_right fun hf => hk hf.1

theorem guard_variableType (hV : V.Bound) (h : (guarding V Q).At owner s) {name : String}
    {pos : Span} {scope : ScopeId} {x : Nat} (hx : V.Reaches x) (hk : ¬ V.tree.IsHoisted x) :
    (guarding V Q).Keeps s (variableType name pos scope (some x)) fun t s' =>
      (guarding V Q).good s' t := by
  have L := guarding_laws (V := V) (Q := Q)
  refine L.bind h (Q := fun y _ => y = x) (L.pure h rfl) fun y s1 h1 _ hy => ?_
  subst hy
  refine L.bind h1 (guard_slotType hV h1 hx hk) fun σ s2 h2 _ hσ => ?_
  exact L.pure h2 (good_iff.2 hσ)

theorem guard_initLayout (hV : V.Bound) (h : (guarding V Q).At owner s) {name : String}
    {pos : Span} {scope : ScopeId} {count : Nat} (hs : scope = rootScope ∨ V.Holds scope) :
    (guarding V Q).Keeps s (initLayout name pos scope count) fun r s' =>
      ∀ f ∈ r.2, (guarding V Q).good s' f.2 := by
  have L := guarding_laws (V := V) (Q := Q)
  unfold initLayout
  refine L.bind h (guard_lookup h.inv) fun x s1 h1 _ hx => ?_
  refine L.bind h1 (guard_symbolScheme hV h1.inv (reaches_of_lookup hV hs hx))
    fun σ s2 h2 _ ⟨hσ, ha⟩ => ?_
  obtain ht | ⟨-, ps, u, ht⟩ := h2.inv.avoids_ty hσ ha
  · refine L.bind h2 (guard_leader h2.inv ht) fun l s3 h3 _ hl => ?_
    obtain ⟨rfl, -, hl⟩ := hl
    split
    · split
      · exact L.pure h3 (Rules.good_struct.1 (good_iff.2 hl))
      · exact L.error h3 ⟨_, rfl, trivial⟩
    · exact L.bind h3 (guard_readTable h3.inv) fun _ s4 h4 _ _ =>
        L.error h4 ⟨_, rfl, trivial⟩
  · -- the type of a function is no struct
    refine L.bind h2 (guard_readTable h2.inv) fun l s3 h3 _ hl => ?_
    obtain ⟨rfl, hl⟩ := hl
    rw [ht] at hl
    obtain rfl := Except.ok.inj hl
    exact L.bind h3 (guard_readTable h3.inv) fun _ s4 h4 _ _ => L.error h4 ⟨_, rfl, trivial⟩

theorem guard_returnType (h : (guarding V Q).At owner s) {pos : Span} {scope : ScopeId} :
    (guarding V Q).Keeps s (returnType owner pos scope) fun t s' => (guarding V Q).good s' t := by
  have L := guarding_laws (V := V) (Q := Q)
  unfold returnType
  cases hr : s.returns with
  | nil =>
    obtain rfl : none = owner := by rw [← h.owner, hr]; rfl
    exact Action.ends_abort trivial
  | cons r rs =>
    obtain rfl : some r.1 = owner := by rw [← h.owner, hr]; rfl
    refine Action.ends_get_bind ?_
    have hf : s.returns.find? (fun q => q.1 == r.1) = some r := by simp [hr]
    rw [hf]
    exact L.pure h (good_iff.2 (h.inv.returns r (by simp [hr])))

/-! ## Functions -/

theorem guard_demandEqual (h : (guarding V Q).At owner s) {a b : Ty} {o : Origin}
    (ha : s.table.Avoids Q a) (hb : s.table.Avoids Q b) :
    (guarding V Q).Keeps s (demandEqual a b o) fun _ _ => True :=
  guard_demand h.inv (by simp [Constraint.types, ha, hb])

theorem guard_bindFormals (hV : V.Bound) {bodyScope : ScopeId} {fs : List (Formal Span)}
    (hf : V.Formals bodyScope fs) : ∀ (gs : List (Formal Span)) {s : CheckState},
      (∀ g ∈ gs, g ∈ fs) → (guarding V Q).At owner s →
      (guarding V Q).Keeps s (bindFormals bodyScope gs) fun ts s' => ∀ t ∈ ts, s'.table.Avoids Q t
  | [], s, _, h => (guarding_laws (V := V) (Q := Q)).pure h nofun
  | g :: gs, s, hgs, h => by
    have L := guarding_laws (V := V) (Q := Q)
    obtain ⟨hg, hgs⟩ := List.forall_mem_cons.1 hgs
    unfold bindFormals
    refine L.bind h (guard_fresh h.inv) fun param s1 h1 _ ht1 => ?_
    refine L.bind h1 (guard_lookup h1.inv) fun x s2 h2 hl2 hx => ?_
    refine L.bind h2 (guard_note h2.inv) fun _ s3 h3 hl3 _ => ?_
    obtain ⟨hx, hk⟩ := lookup?_of_formal hV hf hg hx
    refine L.bind h3 (guard_slotType hV h3 hx hk) fun σ s4 h4 hl4 hσ => ?_
    have ht4 : s4.table.Avoids Q param :=
      ((hl2.1.trans hl3.1).trans hl4.1).avoids _ (good_iff.1 ht1)
    refine L.bind h4 (guard_demandEqual h4 hσ ht4) fun _ s5 h5 hl5 _ => ?_
    refine L.bind h5 (guard_bindFormals hV hf gs hgs h5) fun ts s6 h6 hl6 hts => ?_
    exact L.pure h6 (List.forall_mem_cons.2 ⟨(hl5.1.trans hl6.1).avoids _ ht4, hts⟩)

/-- What is announced of a function: its symbol, its type and its result. -/
structure Introduced (V : Place) (Q : List TyVar) (scope : ScopeId) (name : String)
    (r : SymbolId × Ty × Ty) (T : VarTable) : Prop where
  symbol : V.tree.lookup? scope name = some r.1
  isFn : r.2.1.IsFn
  avoids : T.Avoids Q r.2.1
  result : T.Avoids Q r.2.2

theorem Introduced.mono {scope : ScopeId} {name : String} {r : SymbolId × Ty × Ty} {T T' : VarTable}
    (h : Introduced V Q scope name r T) (hT : Spares Q T T') : Introduced V Q scope name r T' :=
  ⟨h.symbol, h.isFn, hT.avoids _ h.avoids, hT.avoids _ h.result⟩

theorem guard_announce (hV : V.Bound) (h : (guarding V Q).At owner s) {name : String}
    {formals : List (Formal Span)} {pos : Span} {scope bodyScope : ScopeId}
    (hs : scope = rootScope ∨ V.Holds scope) (hf : V.Formals bodyScope formals) :
    (guarding V Q).Keeps s (announce name formals pos scope bodyScope) fun r s' =>
      Introduced V Q scope name r s'.table := by
  have L := guarding_laws (V := V) (Q := Q)
  unfold announce
  refine L.bind h (guard_bindFormals hV hf formals (fun _ => id) h) fun ps s1 h1 _ hps => ?_
  refine L.bind h1 (guard_lookup h1.inv) fun x s2 h2 hl2 hx => ?_
  refine L.bind h2 (guard_fresh h2.inv) fun result s3 h3 hl3 hr => ?_
  refine L.bind h3 (guard_symbolScheme hV h3.inv (reaches_of_lookup hV hs hx))
    fun σ s4 h4 hl4 hσ => ?_
  refine L.bind h4 (guard_instantiate h4.inv hσ.2) fun declared s5 h5 hl5 hd => ?_
  have hr5 := (hl4.1.trans hl5.1).avoids _ (good_iff.1 hr)
  have hps5 : ∀ p ∈ ps, s5.table.Avoids Q p := fun p hp =>
    ((hl2.1.trans hl3.1).trans (hl4.1.trans hl5.1)).avoids _ (hps p hp)
  have hfn : s5.table.Avoids Q (.fn ps result) := avoids_fn.2 ⟨hps5, hr5⟩
  refine L.bind h5 (guard_demandEqual h5 hfn (good_iff.1 hd)) fun _ s6 h6 hl6 _ => ?_
  refine L.bind h6 (guard_note h6.inv) fun _ s7 h7 hl7 _ => ?_
  have hl := hl6.1.trans hl7.1
  exact L.pure h7 ⟨hx, ⟨ps, result, rfl⟩, hl.avoids _ hfn, hl.avoids _ hr5⟩

/-- A function's type avoids `Q` once all that its body demands is solved. -/
theorem guard_functionType (hV : V.Bound) (h : (guarding V Q).At owner s) {opts : CheckOptions}
    {name : String} {formals : List (Formal Span)} {body : Expr Span} {pos : Span}
    {scope bodyScope : ScopeId} (hs : scope = rootScope ∨ V.Holds scope)
    (hf : V.Formals bodyScope formals) (hbody : ∀ s', (guarding V Q).At (some name) s' →
      (guarding V Q).Keeps s' (expr opts body) fun t s'' => (guarding V Q).good s'' t) :
    (guarding V Q).Keeps s (functionType opts name formals body pos scope bodyScope) fun r s' =>
      s'.queue = [] ∧ V.tree.lookup? scope name = some r.1 ∧ r.2.IsFn ∧ s'.table.Avoids Q r.2 := by
  have L := guarding_laws (V := V) (Q := Q)
  unfold functionType
  refine L.bind h (guard_announce hV h hs hf) fun r s1 h1 _ hr1 => ?_
  -- while the body is walked the function is open
  refine Action.ends_modify_bind ?_
  have h2 : (guarding V Q).At (some name) { s1 with returns := (name, r.2.2) :: s1.returns } :=
    ⟨h1.inv.replace h1.inv.queue (List.forall_mem_cons.2 ⟨hr1.result, h1.inv.returns⟩), rfl⟩
  refine Action.Ends.bind (hbody _ h2) fun t s3 ⟨hi3, ⟨hsp, hret3⟩, ht⟩ => ?_
  refine Action.ends_modify_bind ?_
  have hret : s3.returns.tail = s1.returns := by rw [hret3]; rfl
  rw [hret]
  have ht3 : s3.table.Avoids Q t := (good_iff (V := V)).1 ht
  have h4 : (guarding V Q).At owner { s3 with returns := s1.returns } :=
    ⟨hi3.replace hi3.queue fun q hq => hsp.avoids _ (h1.inv.returns q hq), h1.owner⟩
  have hrest : (guarding V Q).Keeps { s3 with returns := s1.returns } (do
      note (.leave pos)
      demandEqual r.2.2 t (.fnBody pos body.pos)
      solveQueue opts
      return (r.1, r.2.1)) fun r' s' => r' = (r.1, r.2.1) ∧ s'.queue = [] := by
    refine L.bind h4 (guard_note h4.inv) fun _ s5 h5 hl5 _ => ?_
    refine L.bind h5 (guard_demandEqual h5 (hl5.1.avoids _ (hr1.mono hsp).result)
      (hl5.1.avoids _ ht3)) fun _ s6 h6 _ _ => ?_
    exact L.bind h6 (guard_solveQueue h6.inv) fun _ s7 h7 _ hq => L.pure h7 ⟨rfl, hq⟩
  refine hrest.mono (fun r' s' ⟨hi', hl', he, hq⟩ => ?_) (fun _ _ => id) fun _ => id
  subst he
  have hr := (hr1.mono hsp).mono hl'.1
  exact ⟨hi', ⟨hsp.trans hl'.1, hl'.2⟩, hq, hr.symbol, hr.isFn, hr.avoids⟩

/-- No function is generalized in a scope of the region. -/
theorem ends_generalizeFunction_inner (hV : V.Bound) (hS : s.scopes.scopes = V.tree.scopes)
    {name : String} {scope : ScopeId} {x : SymbolId} {t : Ty} (hs : V.Holds scope) :
    (generalizeFunction name scope x t).Ends s (fun _ s' => s' = s) (fun _ _ => False)
      fun _ => True := by
  unfold generalizeFunction
  refine Action.ends_get_bind (Action.ends_require_bind (fun c hc => ?_) fun _ _ => trivial)
  rw [if_neg]
  · exact Action.ends_pure rfl
  · have hc : V.tree.scope? scope = some c := by
      unfold ScopeTree.requireScope ScopeTree.scope? at hc
      rw [hS] at hc
      split at hc
      · cases hc
        assumption
      · cases hc
    have := hV.region.level scope c hs.1 hs.2 hc
    omega

theorem guard_functionDecl (hV : V.Bound) (h : (guarding V Q).At owner s) {opts : CheckOptions}
    {name : String} {formals : List (Formal Span)} {body : Expr Span} {pos : Span}
    {scope bodyScope : ScopeId} (hs : V.Holds scope) (hf : V.Formals bodyScope formals)
    (hbody : ∀ s', (guarding V Q).At (some name) s' →
      (guarding V Q).Keeps s' (expr opts body) fun t s'' => (guarding V Q).good s'' t) :
    (guarding V Q).Keeps s (functionDecl opts name formals body pos scope bodyScope)
      fun _ _ => True := by
  have L := guarding_laws (V := V) (Q := Q)
  unfold functionDecl
  refine L.bind h (guard_functionType hV h (.inr hs) hf hbody) fun r s1 h1 _ _ => ?_
  refine L.bind h1 (Q := fun _ _ => True) ?_ fun _ s2 h2 _ _ => ?_
  · refine (ends_generalizeFunction_inner hV h1.inv.scopes hs).mono ?_ (fun _ _ => False.elim)
      fun _ => id
    rintro _ _ rfl
    exact ⟨h1.inv, L.later_refl h1.inv, trivial⟩
  refine L.bind h2 (guard_readTable h2.inv) fun t s3 h3 _ _ => ?_
  exact L.bind h3 (guard_record h3.inv) fun _ s4 h4 _ _ => L.pure h4 trivial

/-- A function inside a statement solves a queue of its own. -/
theorem guard_function (hV : V.Bound) (h : (guarding V Q).At owner s) {opts : CheckOptions}
    {name : String} {formals : List (Formal Span)} {body : Expr Span} {hint : Option Ty}
    {pos : Span} {scope bodyScope : ScopeId} (hs : V.Holds scope) (hf : V.Formals bodyScope formals)
    (hbody : ∀ s', (guarding V Q).At (some name) s' →
      (guarding V Q).Keeps s' (expr opts body) fun t s'' => (guarding V Q).good s'' t) :
    (guarding V Q).Keeps s (stmt opts (.funDecl name formals (some body) hint pos scope bodyScope))
      fun _ _ => True := by
  have L := guarding_laws (V := V) (Q := Q)
  rw [stmt_funDecl]
  refine Action.ends_get_bind ?_
  refine Action.ends_modify_bind ?_
  have h0 : (guarding V Q).At owner { s with queue := [] } :=
    ⟨h.inv.replace nofun h.inv.returns, h.owner⟩
  refine Action.Ends.bind (guard_functionDecl hV h0 hs hf hbody)
    fun t s1 ⟨hi1, ⟨hsp, hret⟩, _⟩ => ?_
  refine Action.ends_modify_bind ?_
  refine Action.ends_pure ⟨hi1.replace (fun o ho t ht => ?_) hi1.returns, ⟨hsp, hret⟩, trivial⟩
  exact hsp.avoids _ (h.inv.queue o ho t ht)

/-- What the walk over a statement of the region keeps. -/
theorem guarding_rules (hV : V.Bound) (opts : CheckOptions) : Rules opts (guarding V Q) where
  toLaws := guarding_laws
  computedCallee _ := trivial
  castWithoutTarget _ := trivial
  alloc h := Rules.closed h
  cast h := Rules.closed h
  fieldScope _ := trivial
  callScope _ _ _ := trivial
  fresh h := guard_fresh h
  leader h ht := (guard_leader h (good_iff.1 ht)).imp fun _ _ _ _ hl => good_iff.2 (hl.1 ▸ hl.2.2)
  demand h _ hc _ := guard_demand h fun t ht => good_iff.1 (hc t ht)
  record h _ := guard_record h
  note h _ _ _ := guard_note h
  read {_ _ _ _ _ x} h hx := guard_useSymbol (x := x) hV h _ hx
  callee h hs hf := guard_calleeSymbol hV h hs hf
  layout h hs := guard_initLayout hV h hs
  slot h hx := by
    obtain ⟨x, z, rfl, hx, hz, hk⟩ := hx
    refine guard_variableType (x := x) hV h (.inr hx) fun ⟨z', hz', hk'⟩ => ?_
    obtain rfl := Option.some.inj (hz.symm.trans hz')
    rw [hk] at hk'
    exact hk'.elim nofun nofun
  typeDecl h hs := by
    have L := guarding_laws (V := V) (Q := Q)
    unfold stmt
    refine L.bind h (guard_lookup h.inv) fun x s1 h1 _ hx => ?_
    refine L.bind h1 (guard_note h1.inv) fun _ s2 h2 _ _ => ?_
    refine L.bind h2 (guard_symbolScheme hV h2.inv (reaches_of_lookup hV hs hx))
      fun σ s3 h3 _ _ => ?_
    exact L.bind h3 (guard_record h3.inv) fun _ s4 h4 _ _ => L.pure h4 trivial
  ret h hf := by
    subst hf
    exact guard_returnType h
  function h hp _ hbody := guard_function hV h hp.1 hp.2 hbody

end

end Check

end TypeInference
