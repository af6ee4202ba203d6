import TypeInference.Check.Result
import TypeInference.Program.Numbering
import TypeInference.Proofs.Generalization.Walk

/-!
# Quantified variables stay unbound

A function of the root scope is generalized when its body is solved: its type avoids what was
quantified before, and what it quantifies is in no other slot that can still be read, for these are
the slots that the environment is collected from (`Guarded.generalize`). So between two top-level
statements the slots guard everything quantified so far (`Between`), and the check of a program ends
in such a state.

`Program.quantified_unbound`: in a program that hides no open slot, every variable that a reported
scheme quantifies over is unbound at the end of the check.
-/

namespace TypeInference

open VarTable ScopeTree

/-! ## The environment of the root scope -/

/-- A symbol bound in the root scope is visible there. -/
theorem ScopeTree.Rooted.visible {S : ScopeTree} {y : SymbolId} (hy : S.Rooted y)
    (hroot : S.parent? rootScope = none) (hs : 0 < S.scopes.size) : y ∈ S.visible rootScope := by
  obtain ⟨name, hy⟩ := hy
  obtain ⟨k, hk⟩ := Nat.exists_eq_succ_of_ne_zero (Nat.ne_of_gt hs)
  have ha : S.ancestors rootScope = [rootScope] := by rw [ancestors, hk, ancestorsFrom, hroot]
  rw [ScopeTree.visible, ha, List.flatMap_singleton]
  exact Assoc.mem_values_of_get? hy

/-- The environment of a root symbol holds the free variables of every other root slot. -/
theorem Check.envVars_ends {s : CheckState} {x : SymbolId} {E : TypeError → CheckState → Prop}
    (hroot : s.scopes.parent? rootScope = none) (hs : 0 < s.scopes.scopes.size) :
    (envVars rootScope x).Ends s (fun env s' => s' = s ∧ ∀ y σ, s.scopes.Rooted y → y ≠ x →
      s.scopes.scheme? y = some σ → ∀ v ∈ s.table.schemeFreeVars σ, v ∈ env) E fun _ => True := by
  unfold envVars
  refine Action.ends_get_bind (Action.ends_require_bind (fun vss hvs => ?_) fun _ _ => trivial)
  refine Action.ends_pure ⟨rfl, fun y σ hy hne hσ v hv => ?_⟩
  have hm : σ ∈ ((s.scopes.visible rootScope).filter (· ≠ x)).filterMap s.scopes.scheme? :=
    List.mem_filterMap.2 ⟨y, List.mem_filter.2 ⟨hy.visible hroot hs, by simpa using hne⟩, hσ⟩
  obtain ⟨vs, hvs, hf⟩ := (Action.except_mapM_eq_ok hvs).1 σ hm
  obtain rfl := checkedSchemeFreeVars_eq_ok hf
  exact List.mem_flatten.2 ⟨_, hvs, hv⟩

/-! ## Generalization -/

section
variable {F : ScopeTree} {b : Nat} {Q : List TyVar} {s : CheckState} {t : Ty} {env : List TyVar}

/-- The environment has what a slot holds around its quantified variables. -/
theorem Guarded.mem_schemeFreeVars (h : Guarded F b b Q s) {y : Nat} {σ : Scheme}
    (hy : F.Rooted y) (hσ : s.scopes.scheme? y = some σ) {v w : TyVar} (hv : v ∈ σ.ty.occurrences)
    (hn : v ∉ σ.vars) (hw : w ∈ (s.table.resolve (.var v)).occurrences) :
    w ∈ s.table.schemeFreeVars σ := by
  have hwQ : w ∉ Q := h.slots y σ (.inl hy) hσ v hv hn w hw
  have hQ : ∀ q ∈ σ.vars, q ∈ Q := fun q hq => (h.poly y σ hσ (List.ne_nil_of_mem hq)).2.1 q hq
  refine List.mem_filter.2 ⟨Ty.mem_vars.2 (mem_resolve.2 ⟨v, hv, hw⟩), decide_eq_true ⟨?_, ?_⟩⟩
  · exact fun hm => hwQ (hQ w hm)
  · intro hm
    obtain ⟨q, hq, rfl⟩ := List.mem_map.1 hm
    rw [(h.unbound q (hQ q hq)).root] at hwQ
    exact hwQ (hQ q hq)

/-- What a root function quantifies is guarded from then on, along with what was. -/
theorem Guarded.generalize (h : Guarded F b b Q s) {x : Nat} (hx : F.Rooted x)
    (hk : F.IsHoisted x) (hfn : t.IsFn) (hm : s.table.Minted t) (ht : s.table.Avoids Q t)
    (henv : ∀ (y : Nat) σ, F.Rooted y → y ≠ x → s.scopes.scheme? y = some σ →
      ∀ v ∈ s.table.schemeFreeVars σ, v ∈ env) (name : String) :
    Guarded F b b (Q ++ (s.table.generalize t env).vars) { s with
      scopes := s.scopes.setScheme x (s.table.generalize t env)
      schemes := s.schemes.insert name (s.table.generalize t env) } := by
  have hfn' : (s.table.generalize t env).ty.IsFn := by
    obtain ⟨ps, r, rfl⟩ := hfn
    exact ⟨_, _, rfl⟩
  have hQ : ∀ q ∈ Q ++ (s.table.generalize t env).vars, s.table.Unbound q := fun q hq =>
    (List.mem_append.1 hq).elim (h.unbound q) (h.wf.unbound_of_generalize hm)
  refine ⟨h.wf, hQ, h.scopes, fun y τ hτ hv => ?_, fun y τ hy hτ => ?_, fun y hy hb => ?_,
    h.layouts.setScheme x fun n fields he => ?_, fun e he q hq => ?_⟩
  · rw [scheme?_setScheme] at hτ
    split at hτ
    · obtain ⟨-, -, rfl⟩ := Option.map_eq_some_iff.1 hτ
      rename_i hxy
      exact ⟨hxy ▸ hk, fun q hq => List.mem_append_right Q hq, hfn'⟩
    · obtain ⟨hy, hτQ, hτf⟩ := h.poly y τ hτ hv
      exact ⟨hy, fun q hq => List.mem_append_left _ (hτQ q hq), hτf⟩
  · have hy : F.Rooted y := hy.resolve_right fun hb => Nat.not_lt.2 hb.1 hb.2
    rw [scheme?_setScheme] at hτ
    split at hτ
    · -- what the new scheme does not quantify
      obtain ⟨-, -, rfl⟩ := Option.map_eq_some_iff.1 hτ
      intro v hv hn
      obtain ⟨hr, hval⟩ := h.wf.of_mem_resolve hv
      rw [h.wf.avoids_unbound ⟨h.wf.minted_resolve hm v hv, hr, hval⟩]
      exact fun hq => (List.mem_append.1 hq).elim (ht v hv) hn
    · -- any other slot was read for the environment
      rename_i hxy
      refine fun v hv hn w hw hq => (List.mem_append.1 hq).elim
        (h.slots y τ (.inl hy) hτ v hv hn w hw) fun hq => ?_
      have hwe := henv y τ hy (Ne.symm hxy) hτ w (h.mem_schemeFreeVars hy hτ hv hn hw)
      exact absurd hwe (by simpa using (List.mem_filter.1 hq).2)
  · rw [scheme?_setScheme, if_neg fun he : x = y => hy (he ▸ hx)]
    exact h.resting y hy hb
  · obtain ⟨ps, r, hf⟩ := hfn'
    rw [hf] at he
    cases he
  · rcases Assoc.mem_toList_insert he with he | he
    · exact List.mem_append_left _ (h.schemes e he q hq)
    · exact List.mem_append_right Q (he ▸ hq)

end

/-! ## Top-level statements -/

namespace Check

/-- Between two top-level statements: the slots guard what is quantified, and nothing is queued or
open. -/
structure Between (F : ScopeTree) (n : Nat) (s : CheckState) : Prop where
  guarded : ∃ Q, Guarded F n n Q s
  queue : s.queue = []
  returns : s.returns = []

section
variable {V : Place} {Q : List TyVar} {s : CheckState} {opts : CheckOptions}

theorem guard_generalizeFunction_root (hV : V.Bound) (h : Guarding V Q s) {name : String} {x : Nat}
    {t : Ty} (hx : V.tree.Rooted x) (hk : V.tree.IsHoisted x) (hfn : t.IsFn)
    (ht : s.table.Avoids Q t) (hq : s.queue = []) :
    (generalizeFunction name rootScope x t).Ends s (fun _ s' =>
      (∃ Q', Guarded V.tree V.endSymbol V.endSymbol Q' s') ∧ s'.queue = [] ∧ s'.returns = s.returns)
      (fun _ => Guarded V.tree V.firstSymbol V.endSymbol Q) fun _ => True := by
  obtain ⟨c, hc, hp, hl⟩ := hV.root
  have hc' : s.scopes.scope? rootScope = some c := by
    rw [ScopeTree.scope?, h.scopes]
    exact hc
  have hroot : s.scopes.parent? rootScope = none := by rw [parent?, hc', Option.bind_some, hp]
  have hrooted : ∀ y : Nat, V.tree.Rooted y → s.scopes.Rooted y := by
    rintro y ⟨n, hn⟩
    exact ⟨n, by rwa [bindings, ScopeTree.scope?, h.scopes]⟩
  unfold generalizeFunction
  refine Action.ends_get_bind (Action.ends_require_bind (fun c' hr => ?_) fun _ _ => trivial)
  rw [requireScope, hc'] at hr
  obtain rfl := Except.ok.inj hr
  rw [if_pos hl]
  refine Action.Ends.bind (envVars_ends hroot (lt_of_scope? hc')) ?_
  rintro env s1 ⟨rfl, henv⟩
  refine Action.Ends.bind (readTable_ends (Q := fun σ s' => s' = s1 ∧
    s1.table.checkedGeneralize t env = .ok σ) (fun σ hσ => ⟨rfl, hσ⟩) fun _ _ => trivial) ?_
  rintro σ s2 ⟨rfl, hσ⟩
  obtain ⟨hm, rfl⟩ := checkedGeneralize_eq_ok hσ
  exact Action.ends_modify ⟨⟨_, h.toGuarded.leave.generalize hx hk hfn hm ht
    (fun y σ hy => henv y σ (hrooted y hy)) name⟩, hq, rfl⟩

/-- A function of the root scope, from its announcement to its generalization. -/
theorem guard_functionDecl_root (hV : V.Bound) (h : (guarding V Q).At none s) {name : String}
    {formals : List (Formal Span)} {body : Expr Span} {pos : Span} {bodyScope : ScopeId}
    (hf : V.Formals bodyScope formals) (hbody : Expr.Every (Placed V) (some name) body)
    (hk : ∀ y, (V.tree.bindings rootScope).get? name = some y → V.tree.IsHoisted y) :
    (functionDecl opts name formals body pos rootScope bodyScope).Ends s (fun _ s' =>
      (∃ Q', Guarded V.tree V.endSymbol V.endSymbol Q' s') ∧ s'.queue = [] ∧ s'.returns = s.returns)
      (fun _ => Guarded V.tree V.firstSymbol V.endSymbol Q) fun _ => True := by
  unfold functionDecl
  refine Action.Ends.bind (guard_functionType hV h (.inl rfl) hf fun s' h' =>
    (guarding_rules hV opts).expr body hbody h') fun r s1 ⟨h1, hl1, hq, hx, hfn, ht⟩ => ?_
  have hr := bindings_of_lookup?_root hV.parent?_root hx
  refine Action.Ends.bind (guard_generalizeFunction_root hV h1 ⟨name, hr⟩ (hk _ hr) hfn ht hq)
    fun _ s2 ⟨⟨Q', hg⟩, hq2, hr2⟩ => ?_
  refine Action.Ends.bind (readTable_ends (Q := fun _ s' => s' = s2) (fun _ _ => rfl)
    fun _ _ => trivial) fun u s3 hs => ?_
  subst hs
  refine Action.Ends.bind (record_ends (Q := fun _ s' =>
    s' = { s3 with types := s3.types.insert pos u }) rfl) fun _ s4 hs => ?_
  subst hs
  exact Action.ends_pure ⟨⟨Q', hg.congr rfl rfl rfl⟩, hq2, hr2.trans hl1.2⟩

/-- A statement that is walked over, up to its last solve. -/
theorem ends_topLevel_of_keeps (h : (guarding V Q).At none s) (hr : s.returns = [])
    {t : Stmt Span} (ht : (guarding V Q).Keeps s (stmt opts t) fun _ _ => True) :
    (topLevel opts t).Ends s (fun _ => Between V.tree V.endSymbol)
      (fun _ s' => ∃ Q', Guarded V.tree V.endSymbol V.endSymbol Q' s') fun _ => True := by
  have L := guarding_laws (V := V) (Q := Q)
  have hk : (guarding V Q).Keeps s (topLevel opts t) fun _ s' => s'.queue = [] := by
    unfold topLevel
    refine L.bind h ht fun u s1 h1 _ _ => ?_
    refine Action.ends_get_bind ?_
    dsimp only
    split
    · refine L.bind h1 (guard_solveQueue h1.inv) fun _ s2 h2 _ hq => ?_
      exact (guard_readTable h2.inv).imp fun _ _ _ _ hs => hs.1 ▸ hq
    · rename_i hq
      exact (guard_readTable h1.inv).imp fun _ _ _ _ hs => hs.1 ▸ by simpa using hq
  exact hk.mono (fun _ s' ⟨h', hl, hq⟩ => ⟨⟨Q, h'.toGuarded.leave⟩, hq, hl.2.trans hr⟩)
    (fun _ _ h' => ⟨Q, h'.leave⟩) fun _ => id

/-- One statement of the root scope. -/
theorem ends_topLevel (opts : CheckOptions) (hV : V.Bound) (h : (guarding V Q).At none s)
    (hq : s.queue = []) (hr : s.returns = []) {t : Stmt Span} (ht : TopPlaced V t) :
    (topLevel opts t).Ends s (fun _ => Between V.tree V.endSymbol)
      (fun _ s' => ∃ Q', Guarded V.tree V.endSymbol V.endSymbol Q' s') fun _ => True := by
  cases t with
  | funDecl x fs b u p s0 s1 =>
    cases b with
    | none =>
      refine ends_topLevel_of_keeps h hr ?_
      unfold stmt
      exact guarding_laws.pure h trivial
    | some b =>
      obtain ⟨rfl, hf, hb, hk⟩ := ht
      unfold topLevel
      rw [stmt_funDecl]
      simp only [bind_assoc, pure_bind]
      refine Action.ends_get_bind ?_
      refine Action.ends_modify_bind ?_
      -- nothing was queued before the function
      have hs : { s with queue := [] } = s := by rw [← hq]
      rw [hs]
      refine Action.Ends.bind ((guard_functionDecl_root hV h hf hb hk).mono (fun _ _ => id)
        (fun _ _ h' => ⟨Q, h'.leave⟩) fun _ => id) fun u s1 ⟨hg, hq1, hr1⟩ => ?_
      refine Action.ends_modify_bind ?_
      have hs1 : { s1 with queue := s.queue } = s1 := by rw [hq, ← hq1]
      rw [hs1]
      refine Action.ends_get_bind ?_
      simp only [hq1, List.isEmpty_nil, not_true, if_false]
      exact readTable_ends (fun _ _ => ⟨hg, hq1, hr1.trans hr⟩) fun _ _ => trivial
  | _ => exact ends_topLevel_of_keeps h hr ((guarding_rules hV opts).stmt _ ht h)

theorem outcome_between {F : ScopeTree} {o : Outcome} {s' : CheckState} {t : Stmt Span}
    (hV : V.Bound) (hF : V.tree = F) (hle : V.firstSymbol ≤ V.endSymbol) (ht : TopPlaced V t)
    (h : Between F V.firstSymbol s) (ho : outcome opts t s = .ok (o, s')) :
    Between F V.endSymbol s' := by
  subst hF
  obtain ⟨⟨Q, hg⟩, hq, hr⟩ := h
  have hG : Guarding V Q { s with events := [] } :=
    ⟨(hg.enter hV.closed hle).congr rfl rfl rfl, by simp [hq], by simp [hr]⟩
  have hend := ends_topLevel opts hV ⟨hG, by simp [hr]⟩ hq hr ht
  obtain ⟨τ, rfl, hb⟩ | ⟨e, s1, rfl, rfl, Q', hg'⟩ := outcome_of_ends hend ho
  · exact hb
  · exact ⟨⟨Q', hg'.congr rfl rfl rfl⟩, rfl, rfl⟩

end

/-- Statements that lie in regions of one tree, checked in turn. -/
theorem outcomes_between {opts : CheckOptions} {F : ScopeTree} {P : List (Stmt Span)}
    (hF : RootBindings P [] F) {n : Nat} {ts : List (Stmt Span)} (hts : AllPlaced F n ts) :
    ∀ {s s' : CheckState} {os : List Outcome}, Between F n s →
      outcomes opts ts s = .ok (os, s') → ∃ n', Between F n' s' := by
  induction hts with
  | nil n =>
    intro s s' os h ho
    obtain ⟨rfl, rfl⟩ := Prod.mk.inj (Except.ok.inj ho)
    exact ⟨n, h⟩
  | @cons V t ts hV hk hreg hle ht _ ih =>
    intro s s' os h ho
    unfold outcomes at ho
    obtain ⟨⟨o, s1⟩, ho1, ho⟩ := Action.except_bind_eq_ok.1 ho
    obtain ⟨⟨os', s2⟩, ho2, ho⟩ := Action.except_bind_eq_ok.1 ho
    obtain ⟨rfl, rfl⟩ := Prod.mk.inj (Except.ok.inj ho)
    have hb : V.Bound := by
      subst hV
      exact ⟨hk, hF.root, hreg, hF.closed⟩
    exact ih (outcome_between hb hV hle ht h ho1) ho2

theorem between_start {F : ScopeTree} (hF : F.SlotsClosed) (n : Nat) :
    Between F n (start F) where
  guarded := ⟨[], wf_empty, nofun, rfl, fun _ _ hσ hv => absurd (hF.scheme? hσ).1 hv,
    fun _ _ _ hσ => schemeAvoids_of_closed (hF.scheme? hσ).2, fun _ _ _ => rfl, hF.layouts, nofun⟩
  queue := rfl
  returns := rfl

end Check

/-- If no variable of the root scope hides a slot that is for inference to fill, every variable that
a reported scheme quantifies over is an unbound root at the end of the check. -/
theorem Program.quantified_unbound (opts : CheckOptions) (P : Program Span)
    (hP : P.HidesNoOpenSlot) (hc : P.TypesClosed) {R : CheckRun}
    (h : P.bind.1.checkRun opts P.bind.2 = .ok R) {r : CheckResult} (hr : R.result = .ok r) :
    ∀ e ∈ r.schemes, ∀ v ∈ e.2.vars, R.final.table.Unbound v := by
  obtain ⟨hF, n, hts⟩ := Program.bind_placed hP hc
  unfold checkRun at h
  obtain ⟨⟨os, s⟩, ho, h⟩ := Action.except_bind_eq_ok.1 h
  obtain rfl := Except.ok.inj h
  obtain ⟨n', ⟨Q, hg⟩, -, -⟩ := Check.outcomes_between hF hts (Check.between_start hF.closed n) ho
  obtain ⟨types, -, hr⟩ := Action.except_bind_eq_ok.1 hr
  obtain ⟨schemes, hs, hr⟩ := Action.except_bind_eq_ok.1 hr
  obtain ⟨globals, -, hr⟩ := Action.except_bind_eq_ok.1 hr
  obtain rfl := Except.ok.inj hr
  intro e he v hv
  obtain ⟨⟨name, σ⟩, hσ, he⟩ := (Action.except_mapM_eq_ok hs).2 e he
  obtain ⟨τ, hτ, he⟩ := Action.except_bind_eq_ok.1 he
  obtain ⟨-, -, hτ⟩ := Action.except_bind_eq_ok.1 hτ
  obtain rfl := Except.ok.inj he
  obtain rfl := Except.ok.inj hτ
  exact hg.unbound v (hg.schemes (name, σ) hσ v hv)

/-- `fun const(a, b) { fun g(c) { a }; g(b) }; let n = const(3, true); n = 4` -/
def constSample : Program Span := Program.number 0 [
  .funDecl "const" [⟨"a", none⟩, ⟨"b", none⟩] (some (.block
    [.funDecl "g" [⟨"c", none⟩] (some (.var "a" none 0 none)) none none 0 0]
    (some (.call "g" none [.var "b" none 0 none] none 0)) none 0)) none none 0 0,
  .varDecl "n" none (.call "const" none [.literal (.int 3) none, .literal (.bool true) none] none 0)
    none 0 none,
  .assign (.var "n" none 0 none) (.literal (.int 4) none) none]

theorem quantified_unbound_constSample : ∃ R r,
    constSample.bind.1.checkRun ⟨10000⟩ constSample.bind.2 = .ok R ∧ R.result = .ok r ∧
      r.schemes = [("const", ⟨[1, 2], .fn [.var 1, .var 2] (.var 1)⟩)] ∧
      ∀ e ∈ r.schemes, ∀ v ∈ e.2.vars, R.final.table.Unbound v := by
  have h : ((constSample.bind.1.checkRun ⟨10000⟩ constSample.bind.2).toOption.bind fun R =>
      R.result.toOption.map CheckResult.schemes) =
        some [("const", ⟨[1, 2], .fn [.var 1, .var 2] (.var 1)⟩)] := by decide +kernel
  obtain ⟨R, hR, h⟩ := Option.bind_eq_some_iff.1 h
  obtain ⟨r, hr, h⟩ := Option.map_eq_some_iff.1 h
  have hR := Action.eq_ok_of_toOption hR
  have hr := Action.eq_ok_of_toOption hr
  exact ⟨R, r, hR, hr, h, Program.quantified_unbound ⟨10000⟩ constSample (by decide +kernel)
    (by decide +kernel) hR hr⟩

/-- `fun mk() { mk() }; let x = mk(); fun f() { x }; x = 1; let x = 2` -/
def hiddenSample : Program Span := Program.number 0 [
  .funDecl "mk" [] (some (.call "mk" none [] none 0)) none none 0 0,
  .varDecl "x" none (.call "mk" none [] none 0) none 0 none,
  .funDecl "f" [] (some (.var "x" none 0 none)) none none 0 0,
  .assign (.var "x" none 0 none) (.literal (.int 1) none) none,
  .varDecl "x" none (.literal (.int 2) none) none 0 none]

/-- The environment misses the slot of a variable that a later one hides, so what `f` quantifies
over is bound by a later statement. -/
theorem quantified_bound_hiddenSample : hiddenSample.TypesClosed ∧ ∃ R r,
    hiddenSample.bind.1.checkRun ⟨10000⟩ hiddenSample.bind.2 = .ok R ∧ R.result = .ok r ∧
      ("f", ⟨[4], .fn [] (.var 4)⟩) ∈ r.schemes ∧ R.final.table.value? 4 = some .int ∧
      ¬ R.final.table.Unbound 4 := by
  refine ⟨by decide +kernel, ?_⟩
  have h : ((hiddenSample.bind.1.checkRun ⟨10000⟩ hiddenSample.bind.2).toOption.bind fun R =>
      R.result.toOption.map fun r => (r.schemes, R.final.table.value? 4)) =
        some ([("mk", ⟨[0], .fn [] (.var 0)⟩), ("f", ⟨[4], .fn [] (.var 4)⟩)], some .int) := by
    decide +kernel
  obtain ⟨R, hR, h⟩ := Option.bind_eq_some_iff.1 h
  obtain ⟨r, hr, h⟩ := Option.map_eq_some_iff.1 h
  obtain ⟨hs, hv⟩ := Prod.mk.inj h
  refine ⟨R, r, Action.eq_ok_of_toOption hR, Action.eq_ok_of_toOption hr, by simp [hs], hv, ?_⟩
  intro hu
  rw [hu.value] at hv
  cases hv

/-- `fun f(a) { a }; fun g(n) { 1 + n }; let f = g`: the function is inferred in the slot of the
variable that hides it, which the declaration then reads as it stands. -/
def hiddenFunctionSample : Program Span := Program.number 0 [
  .funDecl "f" [⟨"a", none⟩] (some (.var "a" none 0 none)) none none 0 0,
  .funDecl "g" [⟨"n", none⟩]
    (some (.binary .add (.literal (.int 1) none) (.var "n" none 0 none) none)) none none 0 0,
  .varDecl "f" none (.var "g" none 0 none) none 0 none]

example : ((hiddenFunctionSample.bind.1.checkRun ⟨10000⟩ hiddenFunctionSample.bind.2).toOption.bind
    fun R => R.result.toOption.map fun r => (r.schemes, R.final.table.value? 0)) =
      some ([("f", ⟨[0], .fn [.var 0] (.var 0)⟩), ("g", ⟨[], .fn [.int] .int⟩)], some .int) := by
  decide +kernel

end TypeInference
