import TypeInference.Program.Numbering
import TypeInference.Proofs.Check.Operations
import TypeInference.Proofs.Program.InRange
import TypeInference.Proofs.Solve.Steps
import TypeInference.Proofs.Unify.Changes
import TypeInference.Proofs.Uses.Instance

/-!
# Checks without faults

`Sound F s`: the state of a walk over a program bound in the tree `F` has the scopes of `F`, a table
that operations built, and in its slots, its queue, its open functions and its records types over
minted variables only. Every operation of the walk keeps this and does not fault, as long as the
stamps of the nodes are in range (`faultless_rules`).

`Program.check_answers`: the check of every program that can be checked comes to its end and
reports.
-/

namespace TypeInference

open VarTable ScopeTree

namespace Check

/-! ## Sound states -/

/-- What is left of a sound state when a statement stops with an error. -/
structure Based (F : ScopeTree) (s : CheckState) : Prop where
  table : Reachable s.table
  scopes : s.scopes.scopes = F.scopes
  symbols : s.scopes.symbols.size = F.symbols.size
  slots : s.scopes.SlotsMinted s.table
  types : ∀ p ∈ s.types.toList, s.table.Minted p.2
  schemes : ∀ p ∈ s.schemes.toList, s.table.Minted p.2.ty

/-- A state from which a walk goes on without faults (module doc). -/
structure Sound (F : ScopeTree) (s : CheckState) : Prop extends Based F s where
  queue : ∀ o ∈ s.queue, o.Fits s.scopes s.table
  returns : ∀ r ∈ s.returns, s.table.Minted r.2

/-- What a walk over nodes whose stamps are in the range of `F` keeps. -/
def faultless (F : ScopeTree) : Invariant where
  inv := Sound F
  later s s' := s.table.size ≤ s'.table.size ∧ s'.returns = s.returns
  failed _ _ := Based F
  fault _ := False
  goodVar s v := v < s.table.size
  ok := Node.InRange F.scopes.size F.symbols.size
  okScope x := x < F.scopes.size
  okPos _ := True

section
variable {F : ScopeTree} {s s' : CheckState} {owner : Option String}

theorem faultless_laws : Laws (faultless F) where
  later_refl _ := ⟨Nat.le_refl _, rfl⟩
  later_trans h h' := ⟨Nat.le_trans h.1 h'.1, h'.2.trans h.2⟩
  later_returns h := h.2
  later_good h hv := Nat.lt_of_lt_of_le hv h.1
  later_failed _ h := h
  fail h _ := h.toBased
  pos _ _ := trivial

theorem Sound.unchanged (h : Sound F s) : Sound F s ∧ (faultless F).later s s :=
  ⟨h, Nat.le_refl _, rfl⟩

theorem Based.lt_scopes (h : Based F s) {scope : ScopeId} (hs : scope < F.scopes.size) :
    scope < s.scopes.scopes.size := h.scopes ▸ hs

/-- A table that grew by operations. -/
theorem Based.onTable (h : Based F s) {T : VarTable} (hl : Later s.table T) :
    Based F { s with table := T } := by
  have hle := (h.table.wf.later hl).2.size_le
  exact ⟨h.table.trans hl, h.scopes, h.symbols, h.slots.mono hle,
    fun p hp => (h.types p hp).mono hle, fun p hp => (h.schemes p hp).mono hle⟩

theorem Sound.onTable (h : Sound F s) {T : VarTable} (hl : Later s.table T) :
    Sound F { s with table := T } ∧ (faultless F).later s { s with table := T } := by
  have hle := (h.table.wf.later hl).2.size_le
  exact ⟨⟨h.toBased.onTable hl, fun o ho => (h.queue o ho).mono hle,
    fun r hr => (h.returns r hr).mono hle⟩, hle, rfl⟩

/-- Open functions and queued obligations put aside for others. -/
theorem Sound.replace (h : Sound F s) {os : List Obligation} {rs : List (String × Ty)}
    (ho : ∀ o ∈ os, o.Fits s.scopes s.table) (hr : ∀ r ∈ rs, s.table.Minted r.2) :
    Sound F { s with queue := os, returns := rs } :=
  ⟨⟨h.table, h.scopes, h.symbols, h.slots, h.types, h.schemes⟩, ho, hr⟩

/-- A slot filled with a scheme over minted variables. -/
theorem Sound.setScheme (h : Sound F s) {x : SymbolId} {σ : Scheme} (ht : s.table.Minted σ.ty)
    (hv : ∀ v ∈ σ.vars, v < s.table.size) :
    Sound F { s with scopes := s.scopes.setScheme x σ } where
  table := h.table
  scopes := h.scopes
  symbols := (size_symbols_setScheme ..).trans h.symbols
  slots y τ hτ := by
    rw [scheme?_setScheme] at hτ
    split at hτ
    · obtain ⟨-, -, rfl⟩ := Option.map_eq_some_iff.1 hτ
      exact ⟨ht, hv⟩
    · exact h.slots y τ hτ
  types := h.types
  schemes := h.schemes
  queue o ho := ⟨(h.queue o ho).minted, (h.queue o ho).scope⟩
  returns := h.returns

/-! ## Operations -/

theorem keeps_mint (h : Sound F s) :
    (faultless F).Keeps s fresh fun t s' => s'.table.Minted t := by
  obtain ⟨h', hl⟩ := h.onTable (.single (.mint s.table))
  refine fresh_ends ⟨h', hl, fun v hv => ?_⟩
  obtain rfl := List.mem_singleton.1 hv
  simp

theorem keeps_leader (h : Sound F s) {t : Ty} (ht : s.table.Minted t) :
    (faultless F).Keeps s (readTable fun T => T.checkedLeader t) fun u s' =>
      s' = s ∧ s'.table.Minted u := by
  obtain ⟨hl, -⟩ | ⟨-, hn⟩ := s.table.checkedLeader_cases t
  · refine readTable_ends (fun u hu => ⟨h, h.unchanged.2, rfl, ?_⟩) fun g hg => ?_
    · rw [← Except.ok.inj (hl.symm.trans hu)]
      exact h.table.wf.minted_leader ht
    · rw [hl] at hg
      cases hg
  · exact absurd ht hn

theorem keeps_resolve (h : Sound F s) {t : Ty} (ht : s.table.Minted t) :
    (faultless F).Keeps s (readTable fun T => T.checkedResolve t) fun u s' =>
      s' = s ∧ s'.table.Minted u := by
  have hr := checkedResolve_of_minted ht
  refine readTable_ends (fun u hu => ⟨h, h.unchanged.2, rfl, ?_⟩) fun g hg => ?_
  · rw [← Except.ok.inj (hr.symm.trans hu)]
    exact h.table.wf.minted_resolve ht
  · rw [hr] at hg
    cases hg

theorem keeps_queued (h : Sound F s) {c : Constraint} {o : Origin}
    (ht : ∀ t ∈ c.types, s.table.Minted t) (hs : ∀ x ∈ c.scope?, x < F.scopes.size) :
    (faultless F).Keeps s (demand c o) fun _ _ => True := by
  refine demand_ends ⟨⟨⟨h.table, h.scopes, h.symbols, h.slots, h.types, h.schemes⟩,
    fun p hp => ?_, h.returns⟩, h.unchanged.2, trivial⟩
  rcases List.mem_append.1 hp with hp | hp
  · exact h.queue p hp
  · obtain rfl := List.mem_singleton.1 hp
    exact ⟨ht, fun x hx => h.lt_scopes (hs x hx)⟩

theorem keeps_equal (h : Sound F s) {a b : Ty} {o : Origin} (ha : s.table.Minted a)
    (hb : s.table.Minted b) : (faultless F).Keeps s (demandEqual a b o) fun _ _ => True :=
  keeps_queued h (by simp [Constraint.types, ha, hb]) (by simp [Constraint.scope?])

theorem keeps_noted (h : Sound F s) {e : Event} :
    (faultless F).Keeps s (note e) fun _ _ => True :=
  note_ends ⟨⟨⟨h.table, h.scopes, h.symbols, h.slots, h.types, h.schemes⟩, h.queue, h.returns⟩,
    h.unchanged.2, trivial⟩

theorem keeps_recorded (h : Sound F s) {pos : Span} {t : Ty} (ht : s.table.Minted t) :
    (faultless F).Keeps s (record pos t) fun _ _ => True := by
  refine record_ends ⟨⟨⟨h.table, h.scopes, h.symbols, h.slots, fun p hp => ?_, h.schemes⟩,
    h.queue, h.returns⟩, h.unchanged.2, trivial⟩
  rcases Assoc.mem_toList_insert hp with hp | hp
  · exact h.types p hp
  · rw [hp]
    exact ht

theorem keeps_instance (h : Sound F s) {σ : Scheme} (hσ : s.table.Minted σ.ty) :
    (faultless F).Keeps s (onTable (instantiate σ)) fun t s' => s'.table.Minted t := by
  have hw := h.table.wf
  have hs : Solve.Steps False (instantiate σ) s.table :=
    Solve.instantiate_steps hw fun _ => hw.schemeMinted hσ
  refine onTable_ends ((hs.and (hw.instantiate_takes σ)).mono (fun t T ⟨hl, _, he, ht⟩ => ?_)
    (fun _ _ hf => hf.2.elim) fun _ hf => hf.1)
  obtain ⟨h', hl'⟩ := h.onTable hl
  exact ⟨h', hl', ht.minted (hσ.mono he.size_le)⟩

theorem keeps_solved {opts : CheckOptions} (h : Sound F s) :
    (faultless F).Keeps s (solveQueue opts) fun _ s' => s'.queue = [] := by
  have h' : Sound F { s with queue := [] } := h.replace nofun h.returns
  have hs : Solve.Steps False (solve ⟨s.scopes, .builtin⟩ opts.maxPasses s.queue) s.table :=
    Solve.solve_steps h.table.wf (fun _ => h.slots) opts.maxPasses fun _ => h.queue
  refine solveQueue_ends (hs.mono (fun _ T hl => ?_) (fun _ T hl => ?_) fun _ => id)
  · obtain ⟨h'', hl''⟩ := h'.onTable hl
    exact ⟨h'', hl'', rfl⟩
  · exact (h'.onTable hl).1.toBased

/-- A slot that is read, and filled first if it is empty. -/
theorem keeps_slot (h : Sound F s) {x : SymbolId} (hx : x < F.symbols.size) :
    (faultless F).Keeps s (symbolScheme x) fun σ s' => s'.table.Minted σ.ty := by
  refine symbolScheme_ends (fun σ hσ => ?_) (fun y hy hn => ?_) fun f hf => ?_
  · exact ⟨h, h.unchanged.2, (h.slots x σ hσ).1⟩
  · obtain ⟨h', hl⟩ := h.onTable (.single (.mint s.table))
    have ht : s.table.mint.2.Minted (.var s.table.size) := fun v hv => by
      obtain rfl := List.mem_singleton.1 hv
      simp
    exact ⟨h'.setScheme ht nofun, hl, ht⟩
  · rw [← h.symbols] at hx
    have hr : s.scopes.requireSymbol x = .ok s.scopes.symbols[x] := by
      rw [requireSymbol, ScopeTree.symbol?, Array.getElem?_eq_getElem hx]
    rw [hr] at hf
    cases hf

section
variable (hF : F.Sound)
include hF

theorem keeps_found (h : Sound F s) {scope : ScopeId} {name : String} {pos : Span}
    (hs : scope < F.scopes.size) :
    (faultless F).Keeps s (lookup scope name pos) fun x s' => s' = s ∧ x < F.symbols.size := by
  refine lookup_ends (fun x hx => ⟨h, h.unchanged.2, rfl, ?_⟩) (fun _ => h.toBased) fun f hf => ?_
  · rw [lookup?_congr h.scopes] at hx
    exact hF.lookup?_lt hx
  · obtain ⟨c, hc⟩ := exists_scope? (h.lt_scopes hs)
    rw [requireScope, hc] at hf
    cases hf

end

/-- A use of a symbol. -/
theorem keeps_use (h : (faultless F).At owner s) (e : Ty → Event) {x : SymbolId}
    (hx : x < F.symbols.size) :
    (faultless F).Keeps s (useSymbol e x) fun t s' => (faultless F).good s' t := by
  have L := faultless_laws (F := F)
  unfold useSymbol
  refine L.bind h (keeps_slot h.inv hx) fun σ s1 h1 _ hσ => ?_
  refine L.bind h1 (keeps_instance h1.inv hσ) fun t s2 h2 _ ht => ?_
  exact L.bind h2 (keeps_noted h2.inv) fun _ s3 h3 hl3 _ => L.pure h3 (L.goodTy hl3 ht)

/-! ## Constructs -/

section
variable (hF : F.Sound)
include hF

theorem keeps_callee (h : (faultless F).At owner s) {name : String} {namePos pos : Span}
    {scope home : ScopeId} (hf : s.scopes.find? scope name = some home) :
    (faultless F).Keeps s (calleeSymbol name namePos pos home) fun t s' =>
      (faultless F).good s' t := by
  obtain ⟨y, hy⟩ := exists_of_find? hf
  have hlt : home < F.scopes.size := h.inv.scopes ▸ lt_of_bindings hy
  refine faultless_laws.bind h (keeps_found hF h.inv hlt) fun x s1 h1 _ hx => ?_
  exact keeps_use h1 _ hx.2

omit hF in
theorem keeps_variable (h : (faultless F).At owner s) {name : String} {pos : Span}
    {scope : ScopeId} {x : SymbolId} (hx : x < F.symbols.size) :
    (faultless F).Keeps s (variableType name pos scope (some x)) fun t s' =>
      (faultless F).good s' t := by
  have L := faultless_laws (F := F)
  refine L.bind h (Q := fun y _ => y = x) (L.pure h rfl) fun y s1 h1 _ hy => ?_
  subst hy
  exact L.bind h1 (keeps_slot h1.inv hx) fun σ s2 h2 _ hσ => L.pure h2 hσ

theorem keeps_layout (h : (faultless F).At owner s) {name : String} {pos : Span}
    {scope : ScopeId} {count : Nat} (hs : scope < F.scopes.size) :
    (faultless F).Keeps s (initLayout name pos scope count) fun r s' =>
      ∀ f ∈ r.2, (faultless F).good s' f.2 := by
  have L := faultless_laws (F := F)
  unfold initLayout
  refine L.bind h (keeps_found hF h.inv hs) fun x s1 h1 _ hx => ?_
  refine L.bind h1 (keeps_slot h1.inv hx.2) fun σ s2 h2 _ hσ => ?_
  refine L.bind h2 (keeps_leader h2.inv hσ) fun l s3 h3 _ hl => ?_
  split
  · split
    · exact L.pure h3 (Rules.good_struct.1 hl.2)
    · exact L.error h3 ⟨_, rfl, trivial⟩
  · exact L.bind h3 (keeps_resolve h3.inv hl.2) fun _ s4 h4 _ _ =>
      L.error h4 ⟨_, rfl, trivial⟩

theorem keeps_typeDecl {opts : CheckOptions} (h : (faultless F).At owner s) {name : String}
    {body : Ty} {pos : Span} {scope : ScopeId} (hs : scope < F.scopes.size) :
    (faultless F).Keeps s (stmt opts (.typeDecl name body pos scope)) fun _ _ => True := by
  have L := faultless_laws (F := F)
  unfold stmt
  refine L.bind h (keeps_found hF h.inv hs) fun x s1 h1 _ hx => ?_
  refine L.bind h1 (keeps_noted h1.inv) fun _ s2 h2 _ _ => ?_
  refine L.bind h2 (keeps_slot h2.inv hx.2) fun σ s3 h3 _ hσ => ?_
  exact L.bind h3 (keeps_recorded h3.inv hσ) fun _ s4 h4 _ _ => L.pure h4 trivial

omit hF in
/-- A `return` finds the innermost open function, which is its own. -/
theorem keeps_returnType (h : (faultless F).At owner s) (ho : owner ≠ none) {pos : Span}
    {scope : ScopeId} : (faultless F).Keeps s (returnType owner pos scope) fun t s' =>
      (faultless F).good s' t := by
  unfold returnType
  cases hr : s.returns with
  | nil => exact absurd (by rw [← h.owner, hr]; rfl) ho
  | cons r rs =>
    obtain rfl : some r.1 = owner := by rw [← h.owner, hr]; rfl
    refine Action.ends_get_bind ?_
    have hf : s.returns.find? (fun q => q.1 == r.1) = some r := by simp [hr]
    rw [hf]
    exact faultless_laws.pure h (h.inv.returns r (by simp [hr]))

/-! ## Functions -/

theorem keeps_formals {bodyScope : ScopeId} (hs : bodyScope < F.scopes.size)
    (fs : List (Formal Span)) (h : (faultless F).At owner s) :
    (faultless F).Keeps s (bindFormals bodyScope fs) fun ts s' => ∀ t ∈ ts, s'.table.Minted t := by
  have L := faultless_laws (F := F)
  induction fs generalizing s with
  | nil => exact L.pure h nofun
  | cons f fs ih =>
    unfold bindFormals
    refine L.bind h (keeps_mint h.inv) fun param s1 h1 _ hp => ?_
    refine L.bind h1 (keeps_found hF h1.inv hs) fun x s2 h2 hl2 hx => ?_
    refine L.bind h2 (keeps_noted h2.inv) fun _ s3 h3 hl3 _ => ?_
    refine L.bind h3 (keeps_slot h3.inv hx.2) fun σ s4 h4 hl4 hσ => ?_
    have hp4 : s4.table.Minted param := hp.mono ((hl2.1.trans hl3.1).trans hl4.1)
    refine L.bind h4 (keeps_equal h4.inv hσ hp4) fun _ s5 h5 hl5 _ => ?_
    refine L.bind h5 (ih h5) fun ts s6 h6 hl6 hts => ?_
    exact L.pure h6 (List.forall_mem_cons.2 ⟨hp4.mono (hl5.1.trans hl6.1), hts⟩)

theorem keeps_head (h : (faultless F).At owner s) {name : String} {formals : List (Formal Span)}
    {pos : Span} {scope bodyScope : ScopeId} (hs : scope < F.scopes.size)
    (hb : bodyScope < F.scopes.size) :
    (faultless F).Keeps s (announce name formals pos scope bodyScope) fun r s' =>
      s'.table.Minted r.2.1 ∧ s'.table.Minted r.2.2 := by
  have L := faultless_laws (F := F)
  unfold announce
  refine L.bind h (keeps_formals hF hb formals h) fun ps s1 h1 _ hps => ?_
  refine L.bind h1 (keeps_found hF h1.inv hs) fun x s2 h2 hl2 hx => ?_
  refine L.bind h2 (keeps_mint h2.inv) fun result s3 h3 hl3 hr => ?_
  refine L.bind h3 (keeps_slot h3.inv hx.2) fun σ s4 h4 hl4 hσ => ?_
  refine L.bind h4 (keeps_instance h4.inv hσ) fun declared s5 h5 hl5 hd => ?_
  have hr5 : s5.table.Minted result := hr.mono (hl4.1.trans hl5.1)
  have hps5 : ∀ p ∈ ps, s5.table.Minted p := fun p hp =>
    (hps p hp).mono ((hl2.1.trans hl3.1).trans (hl4.1.trans hl5.1))
  have hfn : s5.table.Minted (.fn ps result) := (Rules.good_fn (I := faultless F)).2 ⟨hps5, hr5⟩
  refine L.bind h5 (keeps_equal h5.inv hfn hd) fun _ s6 h6 hl6 _ => ?_
  refine L.bind h6 (keeps_noted h6.inv) fun _ s7 h7 hl7 _ => ?_
  exact L.pure h7 ⟨hfn.mono (hl6.1.trans hl7.1), hr5.mono (hl6.1.trans hl7.1)⟩

omit hF in
theorem keeps_env (h : Sound F s) (scope : ScopeId) (self : SymbolId) :
    (faultless F).Keeps s (envVars scope self) fun _ s' => s' = s := by
  unfold envVars
  refine Action.ends_get_bind (Action.ends_require_bind (fun _ _ => ?_) fun g hg => ?_)
  · exact Action.ends_pure ⟨h, h.unchanged.2, rfl⟩
  · obtain ⟨vs, hvs⟩ := Action.except_mapM_ok (f := s.table.checkedSchemeFreeVars)
      (l := ((s.scopes.visible scope).filter (· ≠ self)).filterMap s.scopes.scheme?)
      fun σ hσ => by
        obtain ⟨y, -, hy⟩ := List.mem_filterMap.1 hσ
        obtain ⟨ht, hv⟩ := h.slots y σ hy
        exact ⟨_, checkedSchemeFreeVars_of_minted hv ht⟩
    rw [hvs] at hg
    cases hg

omit hF in
theorem keeps_generalized (h : (faultless F).At owner s) {name : String} {scope : ScopeId}
    {x : SymbolId} {t : Ty} (hs : scope < F.scopes.size) (ht : s.table.Minted t) :
    (faultless F).Keeps s (generalizeFunction name scope x t) fun _ _ => True := by
  have L := faultless_laws (F := F)
  unfold generalizeFunction
  refine Action.ends_get_bind (Action.ends_require_bind (fun c _ => ?_) fun f hf => ?_)
  · split
    · refine L.bind h (keeps_env h.inv scope x) fun env s1 h1 _ hs1 => ?_
      subst hs1
      have hg := checkedGeneralize_of_minted ht env
      obtain ⟨hty, hvs⟩ := h1.inv.table.wf.minted_generalize ht env
      refine L.bind h1 (Q := fun σ s' => s' = s1 ∧ σ = s1.table.generalize t env) ?_
        fun σ s2 h2 _ hσ => ?_
      · refine readTable_ends (fun σ hσ => ⟨h1.inv, h1.inv.unchanged.2, rfl, ?_⟩) fun f hf => ?_
        · exact (Except.ok.inj (hg.symm.trans hσ)).symm
        · rw [hg] at hf
          cases hf
      · obtain ⟨rfl, rfl⟩ := hσ
        have h3 := h2.inv.setScheme (x := x) hty hvs
        refine Action.ends_modify ⟨?_, h2.inv.unchanged.2, trivial⟩
        refine ⟨⟨h3.table, h3.scopes, h3.symbols, h3.slots, h3.types, fun p hp => ?_⟩,
          h3.queue, h3.returns⟩
        rcases Assoc.mem_toList_insert hp with hp | hp
        · exact h3.schemes p hp
        · rw [hp]
          exact hty
    · exact L.pure h trivial
  · obtain ⟨c, hc⟩ := exists_scope? (h.inv.lt_scopes hs)
    rw [requireScope, hc] at hf
    cases hf

/-- The type of a function, with the function open while its body is walked. -/
theorem keeps_functionType (h : (faultless F).At owner s) {opts : CheckOptions} {name : String}
    {formals : List (Formal Span)} {body : Expr Span} {pos : Span} {scope bodyScope : ScopeId}
    (hs : scope < F.scopes.size) (hb : bodyScope < F.scopes.size)
    (hbody : ∀ s', (faultless F).At (some name) s' →
      (faultless F).Keeps s' (expr opts body) fun t s'' => (faultless F).good s'' t) :
    (faultless F).Keeps s (functionType opts name formals body pos scope bodyScope) fun r s' =>
      s'.table.Minted r.2 := by
  have L := faultless_laws (F := F)
  unfold functionType
  refine L.bind h (keeps_head hF h hs hb) fun r s1 h1 _ ⟨hfn, hr⟩ => ?_
  -- while the body is walked the function is open
  refine Action.ends_modify_bind ?_
  have h2 : (faultless F).At (some name) { s1 with returns := (name, r.2.2) :: s1.returns } :=
    ⟨h1.inv.replace h1.inv.queue (List.forall_mem_cons.2 ⟨hr, h1.inv.returns⟩), rfl⟩
  refine Action.Ends.bind (hbody _ h2) fun t s3 ⟨hi3, ⟨hle, hret3⟩, ht⟩ => ?_
  refine Action.ends_modify_bind ?_
  have hret : s3.returns.tail = s1.returns := by rw [hret3]; rfl
  rw [hret]
  have ht3 : s3.table.Minted t := ht
  have h4 : (faultless F).At owner { s3 with returns := s1.returns } :=
    ⟨hi3.replace hi3.queue fun q hq => (h1.inv.returns q hq).mono hle, h1.owner⟩
  have hrest : (faultless F).Keeps { s3 with returns := s1.returns } (do
      note (.leave pos)
      demandEqual r.2.2 t (.fnBody pos body.pos)
      solveQueue opts
      return (r.1, r.2.1)) fun r' s' => s'.table.Minted r'.2 := by
    refine L.bind h4 (keeps_noted h4.inv) fun _ s5 h5 hl5 _ => ?_
    refine L.bind h5 (keeps_equal h5.inv (hr.mono (hle.trans hl5.1)) (ht3.mono hl5.1))
      fun _ s6 h6 hl6 _ => ?_
    refine L.bind h6 (keeps_solved h6.inv) fun _ s7 h7 hl7 _ => L.pure h7 ?_
    exact hfn.mono ((hle.trans hl5.1).trans (hl6.1.trans hl7.1))
  exact hrest.mono (fun r' s' ⟨hi', hl', hr'⟩ => ⟨hi', ⟨hle.trans hl'.1, hl'.2⟩, hr'⟩)
    (fun _ _ => id) fun _ => id

theorem keeps_function (h : (faultless F).At owner s) {opts : CheckOptions} {name : String}
    {formals : List (Formal Span)} {body : Expr Span} {hint : Option Ty} {pos : Span}
    {scope bodyScope : ScopeId} (hs : scope < F.scopes.size) (hb : bodyScope < F.scopes.size)
    (hbody : ∀ s', (faultless F).At (some name) s' →
      (faultless F).Keeps s' (expr opts body) fun t s'' => (faultless F).good s'' t) :
    (faultless F).Keeps s (stmt opts (.funDecl name formals (some body) hint pos scope bodyScope))
      fun t s' => s'.table.Minted t := by
  have L := faultless_laws (F := F)
  rw [stmt_funDecl]
  refine Action.ends_get_bind ?_
  refine Action.ends_modify_bind ?_
  have h0 : (faultless F).At owner { s with queue := [] } :=
    ⟨h.inv.replace nofun h.inv.returns, h.owner⟩
  have hdecl : (faultless F).Keeps { s with queue := [] }
      (functionDecl opts name formals body pos scope bodyScope) fun t s' => s'.table.Minted t := by
    refine L.bind h0 (keeps_functionType hF h0 hs hb hbody) fun r s1 h1 _ hr => ?_
    refine L.bind h1 (keeps_generalized h1 hs hr) fun _ s2 h2 hl2 _ => ?_
    refine L.bind h2 (keeps_resolve h2.inv (hr.mono hl2.1)) fun t s3 h3 _ ht => ?_
    exact L.bind h3 (keeps_recorded h3.inv ht.2) fun _ s4 h4 hl4 _ => L.pure h4 (ht.2.mono hl4.1)
  -- what was queued before the function is taken up again
  refine Action.Ends.bind hdecl fun t s1 ⟨hi1, ⟨hle, hret⟩, ht⟩ => ?_
  refine Action.ends_modify_bind ?_
  have hscopes : s1.scopes.scopes = s.scopes.scopes := hi1.scopes.trans h.inv.scopes.symm
  refine Action.ends_pure ⟨hi1.replace (fun o ho => ?_) hi1.returns, ⟨hle, hret⟩, ht⟩
  refine ⟨fun u hu => ((h.inv.queue o ho).minted u hu).mono hle, fun x hx => ?_⟩
  rw [hscopes]
  exact (h.inv.queue o ho).scope x hx

/-- A walk over nodes whose stamps are in range does not fault. -/
theorem faultless_rules (opts : CheckOptions) : Rules opts (faultless F) where
  toLaws := faultless_laws
  computedCallee h := h
  castWithoutTarget := by
    rintro owner e pos ⟨u, hu, -⟩
    cases hu
  alloc h := Rules.closed h
  cast := by
    rintro owner s e ty pos ⟨u, hu, hc⟩
    obtain rfl := Option.some.inj hu
    exact Rules.closed hc
  fieldScope h := h
  callScope h hok hf := by
    obtain ⟨c, hc⟩ := exists_scope? (h.inv.lt_scopes hok)
    rw [requireScope, hc] at hf
    cases hf
  fresh h := keeps_mint h
  leader h ht := (keeps_leader h ht).imp fun _ _ _ _ hu => hu.2
  demand h _ ht hs := keeps_queued h ht hs
  record h ht := keeps_recorded h ht
  note h _ _ _ := keeps_noted h
  read h hok := keeps_use h _ (hok.2 _ rfl)
  callee h _ hf := keeps_callee hF h hf
  layout h hok := keeps_layout hF h hok
  slot h hok := by
    obtain ⟨-, x, rfl, hx⟩ := hok
    exact keeps_variable h hx
  typeDecl h hok := keeps_typeDecl hF h hok
  ret h hok := by
    obtain ⟨-, rfl, ho⟩ := hok
    exact keeps_returnType h ho
  function h hok _ hbody := (keeps_function hF h hok.1 hok.2 hbody).imp fun _ _ _ _ _ => trivial

end

/-! ## Top-level statements -/

/-- The type of a statement that declares no function with a body is `unit`. -/
theorem ends_unit (opts : CheckOptions) {t : Stmt Span}
    (ht : ∀ x fs b u p s0 s1, t ≠ .funDecl x fs (some b) u p s0 s1) :
    (stmt opts t).Ends s (fun u _ => u = .unit) (fun _ _ => True) fun _ => True := by
  have any {α : Type} (x : CheckM α) (s : CheckState) := Action.ends_anyhow x s
  cases t with
  | expr e | yield e p =>
    unfold stmt
    exact Action.Ends.bind (any _ s) fun _ _ _ => Action.ends_pure rfl
  | typeDecl x t p s0 =>
    unfold stmt
    refine Action.Ends.bind (any _ s) fun y s1 _ => Action.Ends.bind (any _ s1) fun _ s2 _ => ?_
    refine Action.Ends.bind (any _ s2) fun σ s3 _ => Action.Ends.bind (any _ s3) fun _ _ _ => ?_
    exact Action.ends_pure rfl
  | varDecl x u e p s0 y =>
    rw [stmt_varDecl]
    refine Action.Ends.bind (any _ s) fun t s1 _ => Action.Ends.bind (any _ s1) fun u s2 _ => ?_
    exact Action.Ends.bind (any _ s2) fun _ _ _ => Action.ends_pure rfl
  | funDecl x fs b u p s0 s1 =>
    cases b with
    | none =>
      unfold stmt
      exact Action.ends_pure rfl
    | some b => exact absurd rfl (ht x fs b u p s0 s1)
  | ret e f p s0 =>
    unfold stmt
    refine Action.Ends.bind (any _ s) fun r s1 _ => Action.Ends.bind (any _ s1) fun _ s2 _ => ?_
    refine Action.Ends.bind (any _ s2) fun t s3 _ => Action.Ends.bind (any _ s3) fun _ _ _ => ?_
    exact Action.ends_pure rfl
  | assign l r p =>
    unfold stmt
    refine Action.Ends.bind (any _ s) fun t s1 _ => Action.Ends.bind (any _ s1) fun u s2 _ => ?_
    exact Action.Ends.bind (any _ s2) fun _ _ _ => Action.ends_pure rfl

section
variable (hF : F.Sound)
include hF

theorem keeps_stmtType (opts : CheckOptions) {t : Stmt Span}
    (ht : Stmt.Every (Node.InRange F.scopes.size F.symbols.size) none t)
    (h : (faultless F).At none s) :
    (faultless F).Keeps s (stmt opts t) fun u s' => s'.table.Minted u := by
  have R := faultless_rules hF opts
  by_cases hfn : ∃ x fs b u p s0 s1, t = .funDecl x fs (some b) u p s0 s1
  · obtain ⟨x, fs, b, u, p, s0, s1, rfl⟩ := hfn
    exact keeps_function hF h ht.1.1 ht.1.2 fun s' h' => R.expr b ht.2 h'
  · have hunit := ends_unit opts (s := s) (t := t) fun x fs b u p s0 s1 he =>
      hfn ⟨x, fs, b, u, p, s0, s1, he⟩
    refine ((R.stmt t ht h).and hunit).mono (fun u s' ⟨⟨hi, hl, _⟩, hu⟩ => ⟨hi, hl, ?_⟩)
      (fun _ _ hf => hf.1) fun _ hf => hf.1
    subst hu
    exact nofun

theorem keeps_topLevel (opts : CheckOptions) {t : Stmt Span}
    (ht : Stmt.Every (Node.InRange F.scopes.size F.symbols.size) none t)
    (h : (faultless F).At none s) : (faultless F).Keeps s (topLevel opts t) fun _ s' =>
      s'.queue = [] := by
  have L := faultless_laws (F := F)
  unfold topLevel
  refine L.bind h (keeps_stmtType hF opts ht h) fun u s1 h1 _ hu => ?_
  refine Action.ends_get_bind ?_
  have hlast : ∀ {s'}, (faultless F).At none s' → s'.table.Minted u → s'.queue = [] →
      (faultless F).Keeps s' (readTable fun T => T.checkedResolve u) fun _ s' => s'.queue = [] :=
    fun h' hu' hq => (keeps_resolve h'.inv hu').imp fun _ _ _ _ hs => hs.1 ▸ hq
  dsimp only
  split
  · exact L.bind h1 (keeps_solved h1.inv) fun _ s2 h2 hl2 hq => hlast h2 (hu.mono hl2.1) hq
  · rename_i hq
    exact hlast h1 hu (by simpa using hq)

/-- A state between two top-level statements. -/
structure Rested (F : ScopeTree) (s : CheckState) : Prop extends Based F s where
  queue : s.queue = []
  returns : s.returns = []

theorem outcome_rested (opts : CheckOptions) {t : Stmt Span}
    (ht : Stmt.Every (Node.InRange F.scopes.size F.symbols.size) none t) (h : Rested F s) :
    ∃ o s', outcome opts t s = .ok (o, s') ∧ Rested F s' := by
  have h0 : (faultless F).At none { s with events := [] } := by
    refine ⟨⟨⟨h.table, h.scopes, h.symbols, h.slots, h.types, h.schemes⟩, ?_, ?_⟩, ?_⟩
    · exact fun o ho => by cases (h.queue ▸ ho : o ∈ [])
    · exact fun r hr => by cases (h.returns ▸ hr : r ∈ [])
    · show s.returns.head?.map Prod.fst = none
      rw [h.returns]
      rfl
  have hk := keeps_topLevel hF opts ht h0
  unfold outcome
  have hrun : (topLevel opts t).run { s with events := [] } =
    (topLevel opts t).outcome { s with events := [] } := rfl
  rw [hrun]
  unfold Invariant.Keeps Action.Ends at hk
  rcases hx : (topLevel opts t).outcome { s with events := [] } with ⟨(e | f) | u, s1⟩ <;>
    rw [hx] at hk
  · refine ⟨_, _, rfl, ⟨?_, rfl, rfl⟩⟩
    exact ⟨hk.table, hk.scopes, hk.symbols, hk.slots, hk.types, hk.schemes⟩
  · exact hk.elim
  · exact ⟨_, _, rfl, ⟨hk.1.toBased, hk.2.2, hk.2.1.2.trans h.returns⟩⟩

theorem outcomes_rested (opts : CheckOptions) : ∀ (ts : List (Stmt Span)) {s : CheckState},
    Stmt.EveryAll (Node.InRange F.scopes.size F.symbols.size) none ts → Rested F s →
    ∃ os s', outcomes opts ts s = .ok (os, s') ∧ Rested F s'
  | [], s, _, h => ⟨[], s, rfl, h⟩
  | t :: ts, s, ⟨ht, hts⟩, h => by
    obtain ⟨o, s1, ho, h1⟩ := outcome_rested hF opts ht h
    obtain ⟨os, s2, hos, h2⟩ := outcomes_rested opts ts hts h1
    exact ⟨o :: os, s2, Action.except_bind_eq_ok.2 ⟨(o, s1), ho,
      Action.except_bind_eq_ok.2 ⟨(os, s2), hos, rfl⟩⟩, h2⟩

theorem rested_start : Rested F (start F) where
  table := .refl
  scopes := rfl
  symbols := rfl
  slots x σ hσ := by
    obtain ⟨y, hy, hσ⟩ := Option.bind_eq_some_iff.1 hσ
    obtain ⟨hv, ht⟩ := hF.closed x y σ hy hσ
    refine ⟨fun v hv' => ?_, fun v hv' => ?_⟩
    · cases (ht ▸ hv' : v ∈ [])
    · cases (hv ▸ hv' : v ∈ [])
  types := nofun
  schemes := nofun
  queue := rfl
  returns := rfl

end

/-- All that a check has recorded can be reported. -/
theorem Based.result_eq_ok (h : Based F s) (os : List Outcome) :
    ∃ r, (⟨os, s⟩ : CheckRun).result = .ok r := by
  obtain ⟨types, ht⟩ := Action.except_mapM_ok (l := s.types.toList)
    (f := fun p => do return (p.1, ← s.table.checkedResolve p.2)) fun p hp => by
      rw [checkedResolve_of_minted (h.types p hp)]
      exact ⟨_, rfl⟩
  obtain ⟨schemes, hs⟩ := Action.except_mapM_ok (l := s.schemes.toList)
    (f := fun p => do return (p.1, ← s.table.checkedResolveScheme p.2)) fun p hp => by
      rw [checkedResolveScheme_of_minted (h.schemes p hp)]
      exact ⟨_, rfl⟩
  obtain ⟨globals, hg⟩ := Action.except_mapM_ok
    (l := (s.scopes.bindings rootScope).toList.filterMap fun e =>
      (s.scopes.scheme? e.2).map fun σ => (e.1, σ))
    (f := fun p => do return (p.1, ← s.table.checkedResolveScheme p.2)) fun p hp => by
      obtain ⟨⟨n, x⟩, -, hp⟩ := List.mem_filterMap.1 hp
      obtain ⟨σ, hσ, rfl⟩ := Option.map_eq_some_iff.1 hp
      rw [checkedResolveScheme_of_minted (h.slots x σ hσ).1]
      exact ⟨_, rfl⟩
  exact ⟨_, Action.except_bind_eq_ok.2 ⟨types, ht, Action.except_bind_eq_ok.2 ⟨schemes, hs,
    Action.except_bind_eq_ok.2 ⟨globals, hg, rfl⟩⟩⟩⟩

end

end Check

/-- The check of every program that can be checked comes to its end and reports, whatever the number
of passes. Binding stamps each node with scopes and symbols of a sound tree. Each change that the
check makes to its table is a new variable, the merger of two unbound classes or the binding of an
unbound class; in every such table the leaders that a unification merges or binds are unbound. -/
theorem Program.check_answers (opts : CheckOptions) {P : Program Span} (hP : P.Checkable) :
    (P.bind.2.Sound ∧
      Stmt.EveryAll (Node.InRange P.bind.2.scopes.size P.bind.2.symbols.size) none P.bind.1) ∧
    (∃ R r, P.bind.1.checkRun opts P.bind.2 = .ok R ∧ P.bind.1.check opts P.bind.2 = .ok r ∧
      Changes ∅ R.final.table) ∧
    ∀ T, Changes ∅ T → ∀ a b,
      (∀ v w, (T.leader a).confront (T.leader b) = .merge v w →
        T.value? v = none ∧ T.value? w = none) ∧
      ∀ v t, (T.leader a).confront (T.leader b) = .assign v t → T.value? v = none := by
  obtain ⟨hF, hstamps⟩ := P.bind_inRange hP
  refine ⟨⟨hF, hstamps⟩, ?_, fun T hT a b => ⟨fun v w hc => ?_, fun v t hc => ?_⟩⟩
  · obtain ⟨os, s, ho, hs⟩ :=
      Check.outcomes_rested hF opts P.bind.1 hstamps (Check.rested_start hF)
    obtain ⟨r, hr⟩ := hs.result_eq_ok os
    have hR : P.bind.1.checkRun opts P.bind.2 = .ok ⟨os, s⟩ :=
      Action.except_bind_eq_ok.2 ⟨(os, s), ho, rfl⟩
    exact ⟨⟨os, s⟩, r, hR, Action.except_bind_eq_ok.2 ⟨_, hR, hr⟩, hs.table.changes wf_empty⟩
  · have h := Changes.wf wf_empty hT
    obtain ⟨ha, hb, -⟩ := Ty.confront_eq_merge.1 hc
    exact ⟨(h.of_leader_eq_var ha).2, (h.of_leader_eq_var hb).2⟩
  · exact (Unify.unbound_of_assign (Changes.wf wf_empty hT) hc).1.2

/-- `fun outer(a) { fun inner(b) { return b; a }; return inner(a); 1 }; let v = outer(3); v = true`
-/
def nestedSample : Program Span := Program.number 0 [
  .funDecl "outer" [⟨"a", none⟩] (some (.block
    [.funDecl "inner" [⟨"b", none⟩] (some (.block
      [.ret (.var "b" none 0 none) none none 0] (some (.var "a" none 0 none)) none 0))
      none none 0 0,
    .ret (.call "inner" none [.var "a" none 0 none] none 0) none none 0]
    (some (.literal (.int 1) none)) none 0)) none none 0 0,
  .varDecl "v" none (.call "outer" none [.literal (.int 3) none] none 0) none 0 none,
  .assign (.var "v" none 0 none) (.literal (.bool true) none) none]

theorem check_answers_nestedSample : nestedSample.Checkable ∧ ∃ R r,
    nestedSample.bind.1.checkRun ⟨1⟩ nestedSample.bind.2 = .ok R ∧
      nestedSample.bind.1.check ⟨1⟩ nestedSample.bind.2 = .ok r ∧ Changes ∅ R.final.table := by
  have h : nestedSample.Checkable := by decide +kernel
  exact ⟨h, (Program.check_answers ⟨1⟩ h).2.1⟩

end TypeInference
