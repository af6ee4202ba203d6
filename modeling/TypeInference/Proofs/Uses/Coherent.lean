import TypeInference.Check.Result
import TypeInference.Program.Numbering
import TypeInference.Proofs.Generalization.Quantified
import TypeInference.Proofs.Uses.Walk

/-!
# Uses are coherent with the final schemes

`Coherent F rest past s`: every type that was taken for a symbol so far was taken for an instance of
the slot as it is, or is the same as the type in the slot. The latter is what becomes of the uses
of a function when it is generalized (`Coherent.generalize`): they took the type in its slot as it
stood, and the function's type was made equal to that. No symbol that a statement still to come
declares has been generalized, so this happens to a symbol once only.

`Program.uses_coherent`: at the end of the check of a program whose root scope declares no name
twice, every use of a symbol is covered by the symbol's final scheme. The quantified variables are
unbound at the end and stand in no slot outside the scheme (`outcomes_between`), so an instance
taken at any time is still one.
-/

namespace TypeInference

open VarTable ScopeTree

namespace Check

/-! ## Coherence -/

/-- The symbol has the name of a statement still to come. -/
def Pending (F : ScopeTree) (rest : List (Stmt Span)) (y : SymbolId) : Prop :=
  ∃ t ∈ rest, ∃ z, F.symbol? y = some z ∧ t.declaredName? = some z.name

/-- The type is the same as the one in the symbol's slot. -/
def Matches (s : CheckState) (u : SymbolId × Ty) : Prop :=
  ∃ σ, s.scopes.scheme? u.1 = some σ ∧ s.table.Minted u.2 ∧
    Ty.Same (s.table.resolve u.2) (s.table.resolve σ.ty)

/-- Every use so far agrees with the slot of its symbol (module doc). -/
structure Coherent (F : ScopeTree) (rest : List (Stmt Span)) (past : List (SymbolId × Ty))
    (s : CheckState) : Prop where
  wf : s.table.Wf
  scopes : s.scopes.scopes = F.scopes
  minted : ∀ y σ, s.scopes.scheme? y = some σ → s.table.Minted σ.ty
  poly : ∀ y σ, s.scopes.scheme? y = some σ → σ.vars ≠ [] → F.Rooted y ∧ ¬ Pending F rest y
  uses : ∀ u, u ∈ past ∨ u ∈ Event.uses s.events →
    Taken s u ∨ Matches s u ∧ ¬ Pending F rest u.1

/-- The symbol and the type of the function that the statement `t` declares, once its demands are
met: the type is the same as the one in the symbol's slot, and no later statement declares the
symbol. -/
structure Inferred (F : ScopeTree) (t : Stmt Span) (rest : List (Stmt Span)) (r : SymbolId × Ty)
    (s : CheckState) : Prop where
  rooted : F.Rooted r.1
  pending : Pending F (t :: rest) r.1
  past : ¬ Pending F rest r.1
  slot : ∃ σ, s.scopes.scheme? r.1 = some σ ∧
    Ty.Same (s.table.resolve r.2) (s.table.resolve σ.ty)

section
variable {F : ScopeTree} {t : Stmt Span} {rest : List (Stmt Span)} {past : List (SymbolId × Ty)}
  {s s' : CheckState}

theorem Traced.matches (h : Traced s s') (hw : s.table.Wf) {u : SymbolId × Ty} (hu : Matches s u) :
    Matches s' u := by
  obtain ⟨σ, hσ, hm, hs⟩ := hu
  exact ⟨σ, h.kept _ σ hσ, hm.mono h.grows.size_le, h.grows.same hw h.wf hs⟩

theorem Pending.later {y : SymbolId} (h : Pending F rest y) : Pending F (t :: rest) y := by
  obtain ⟨t', ht, hz⟩ := h
  exact ⟨t', List.mem_cons_of_mem t ht, hz⟩

namespace Coherent

/-- A statement that is past is no longer to come. -/
theorem next (h : Coherent F (t :: rest) past s) : Coherent F rest past s where
  wf := h.wf
  scopes := h.scopes
  minted := h.minted
  poly y σ hσ hv := (h.poly y σ hσ hv).imp_right fun hn hp => hn hp.later
  uses u hu := (h.uses u hu).imp_right fun hm => ⟨hm.1, fun hp => hm.2 hp.later⟩

/-- The parts of a state that matter. -/
theorem congr (h : Coherent F rest past s) (ht : s'.table = s.table) (hs : s'.scopes = s.scopes)
    (he : s'.events = s.events) : Coherent F rest past s' := by
  obtain ⟨T, S, _, _, _, _, es⟩ := s'
  obtain rfl : T = s.table := ht
  obtain rfl : S = s.scopes := hs
  obtain rfl : es = s.events := he
  exact ⟨h.wf, h.scopes, h.minted, h.poly, h.uses⟩

/-- Coherence along a walk. -/
theorem traced (h : Coherent F rest past s) (ht : Traced s s') : Coherent F rest past s' where
  wf := ht.wf
  scopes := ht.scopes.trans h.scopes
  minted y σ hσ := by
    obtain hσ | ⟨-, hm⟩ := ht.filled y σ hσ
    · exact (h.minted y σ hσ).mono ht.grows.size_le
    · exact hm
  poly y σ hσ hv := by
    obtain hσ | ⟨hn, -⟩ := ht.filled y σ hσ
    · exact h.poly y σ hσ hv
    · exact absurd hn hv
  uses u hu := by
    obtain ⟨es, hes, hnew⟩ := ht.events
    rw [hes, Event.uses_append, List.mem_append, or_left_comm] at hu
    obtain hu | hu := hu
    · exact .inl (hnew u hu)
    · exact (h.uses u hu).imp ht.taken fun hm => ⟨ht.matches h.wf hm.1, hm.2⟩

/-- Between two statements the events of the first become past. -/
theorem close (h : Coherent F rest past s) (ht : s'.table = s.table) (hs : s'.scopes = s.scopes)
    (he : s'.events = []) : Coherent F rest (past ++ Event.uses s.events.reverse) s' := by
  obtain ⟨T, S, _, _, _, _, es⟩ := s'
  obtain rfl : T = s.table := ht
  obtain rfl : S = s.scopes := hs
  obtain rfl : es = [] := he
  refine ⟨h.wf, h.scopes, h.minted, h.poly, fun u hu => h.uses u ?_⟩
  obtain hu | hu := hu
  · refine (List.mem_append.1 hu).imp_right fun hu => ?_
    rwa [Event.uses, List.filterMap_reverse, List.mem_reverse] at hu
  · cases hu

/-- A slot of a symbol still to be declared quantifies over nothing. -/
theorem vars_of_pending (h : Coherent F rest past s) {x : SymbolId} {σ : Scheme}
    (hσ : s.scopes.scheme? x = some σ) (hx : Pending F rest x) : σ.vars = [] :=
  Classical.byContradiction fun hv => (h.poly x σ hσ hv).2 hx

/-- When a function is generalized, earlier uses of it come to match its slot. -/
theorem generalize (h : Coherent F (t :: rest) past s) {r : SymbolId × Ty}
    (hr : Inferred F t rest r s) (hm : s.table.Minted r.2) (env : List TyVar)
    (he : s'.table = s.table) (hS : s'.scopes = s.scopes.setScheme r.1 (s.table.generalize r.2 env))
    (hev : s'.events = s.events) : Coherent F rest past s' := by
  obtain ⟨T, S, _, _, _, _, es⟩ := s'
  obtain rfl : T = s.table := he
  obtain rfl : S = s.scopes.setScheme r.1 (s.table.generalize r.2 env) := hS
  obtain rfl : es = s.events := hev
  obtain ⟨σ, hσ, hs⟩ := hr.slot
  obtain ⟨z, hz, -⟩ := Option.bind_eq_some_iff.1 hσ
  have hslot := scheme?_setScheme_of_symbol hz (s.table.generalize r.2 env)
  have hn := h.next
  refine ⟨h.wf, h.scopes, fun y τ hτ => ?_, fun y τ hτ hv => ?_, fun u hu => ?_⟩
  · rw [hslot] at hτ
    split at hτ
    · cases hτ
      exact h.wf.minted_resolve hm
    · exact h.minted y τ hτ
  · rw [hslot] at hτ
    split at hτ
    · rename_i hry
      exact hry ▸ ⟨hr.rooted, hr.past⟩
    · exact hn.poly y τ hτ hv
  · by_cases hru : r.1 = u.1
    · -- an earlier use of the function took the type in its slot
      have ht : Taken s u := (h.uses u hu).resolve_right fun hm => hm.2 (hru ▸ hr.pending)
      obtain ⟨τ, hτ, ht⟩ := ht
      obtain rfl : σ = τ := Option.some.inj (hσ.symm.trans (hru ▸ hτ))
      have hu2 := ht.mono (h.vars_of_pending hσ hr.pending)
      refine .inr ⟨⟨_, (hslot u.1).trans (if_pos hru), hu2 ▸ h.minted r.1 σ hσ, ?_⟩, hru ▸ hr.past⟩
      show Ty.Same (s.table.resolve u.2) (s.table.resolve (s.table.resolve r.2))
      rw [h.wf.resolve_resolve, hu2]
      exact hs.symm
    · have hkeep := (hslot u.1).trans (if_neg hru)
      refine (hn.uses u hu).imp (fun ⟨τ, hτ, ht⟩ => ⟨τ, hkeep.trans hτ, ht⟩) fun hm => ?_
      obtain ⟨⟨τ, hτ, hm⟩, hp⟩ := hm
      exact ⟨⟨τ, hkeep.trans hτ, hm⟩, hp⟩

theorem start (hF : F.SlotsClosed) : Coherent F rest [] (start F) where
  wf := wf_empty
  scopes := rfl
  minted y σ hσ v hv := by
    rw [(hF.scheme? hσ).2] at hv
    cases hv
  poly y σ hσ hv := absurd (hF.scheme? hσ).1 hv
  uses u hu := by
    obtain hu | hu := hu <;> cases hu

end Coherent

end

/-! ## Top-level statements -/

section
variable {V : Place} {t : Stmt Span} {rest : List (Stmt Span)} {past : List (SymbolId × Ty)}
  {s s' : CheckState} {opts : CheckOptions}

/-- Started in `s`, the action ends in a coherent state, whether it succeeds or fails. -/
def EndsCoherent (V : Place) (rest : List (Stmt Span)) (past : List (SymbolId × Ty)) {α : Type}
    (x : CheckM α) (s : CheckState) : Prop :=
  x.Ends s (fun _ => Coherent V.tree rest past) (fun _ => Coherent V.tree rest past) fun _ => True

theorem Coherent.after {α : Type} {x : CheckM α} {Q : α → CheckState → Prop}
    (h : Coherent V.tree rest past s) (hx : (tracing V).Keeps s x Q) :
    EndsCoherent V rest past x s :=
  hx.mono (fun _ _ hs => h.traced hs.2.1.1) (fun _ _ => h.traced) fun _ => id

/-- A function of the root scope up to its generalization. -/
theorem coherent_functionType (hV : V.Bound) (hnamed : V.tree.NamesRoot)
    (h : Coherent V.tree (t :: rest) past s) (hr : s.returns = []) (he : s.events = [])
    {name : String} (ht : t.declaredName? = some name)
    (hrest : ∀ t' ∈ rest, t'.declaredName? ≠ some name) {formals : List (Formal Span)}
    {body : Expr Span} {pos : Span} {bodyScope : ScopeId}
    (hbody : Expr.Every (Placed V) (some name) body) :
    (functionType opts name formals body pos rootScope bodyScope).Ends s
      (fun r s' => Coherent V.tree (t :: rest) past s' ∧ Inferred V.tree t rest r s')
      (fun _ => Coherent V.tree rest past) fun _ => True := by
  have h0 : (tracing V).At none s := ⟨⟨h.wf, h.scopes⟩, by rw [hr]; rfl⟩
  have h0' : obligations.At none s := ⟨h.wf, by rw [hr]; rfl⟩
  have htrace : (tracing V).Keeps s (functionType opts name formals body pos rootScope bodyScope)
      fun r s' => Declared V rootScope name r s' :=
    trace_functionType h0 fun s' h' => (tracing_rules hV opts).expr body hbody h'
  have hall : Expr.Every obligations.ok (some name) body :=
    Expr.every_of_forall (fun _ _ => trivial) _ body
  have hmeet : (functionType opts name formals body pos rootScope bodyScope).Ends s _ _ _ :=
    ends_functionType h0' fun s' h' => (obligations_rules opts).expr body hall h'
  refine (htrace.and hmeet).mono ?_ (fun _ _ hf => (h.traced hf.1).next) fun _ => And.left
  rintro r s1 ⟨⟨-, ⟨ht1, -⟩, hd⟩, ⟨hset, -⟩, -⟩
  have h1 := h.traced ht1
  obtain ⟨σ, hσ, hdemand⟩ := hd.slot
  have hx := bindings_of_lookup?_root hV.parent?_root hd.symbol
  obtain ⟨z, hz, hzn⟩ := hnamed name r.1 hx
  have hpend : Pending V.tree (t :: rest) r.1 := ⟨t, List.mem_cons_self, z, hz, by rw [ht, hzn]⟩
  refine ⟨h1, ⟨name, hx⟩, hpend, ?_, σ, hσ, ?_⟩
  · rintro ⟨t', ht', z', hz', hn⟩
    obtain rfl := Option.some.inj (hz.symm.trans hz')
    exact hrest t' ht' (by rw [hn, hzn])
  · -- all that the function demands is met, among it that its type is the one in its slot
    obtain ⟨o, ho⟩ := hdemand (h1.vars_of_pending hσ hpend)
    obtain ⟨es, hes, hmet⟩ := hset.settled
    rw [he, List.append_nil] at hes
    exact hmet _ (.inr (List.mem_filterMap.2 ⟨_, hes ▸ ho, rfl⟩))

/-- A function of the root scope, from its announcement to its generalization. -/
theorem coherent_functionDecl (hV : V.Bound) (hnamed : V.tree.NamesRoot)
    (h : Coherent V.tree (t :: rest) past s) (hr : s.returns = []) (he : s.events = [])
    {name : String} (ht : t.declaredName? = some name)
    (hrest : ∀ t' ∈ rest, t'.declaredName? ≠ some name) {formals : List (Formal Span)}
    {body : Expr Span} {pos : Span} {bodyScope : ScopeId}
    (hbody : Expr.Every (Placed V) (some name) body) :
    EndsCoherent V rest past (functionDecl opts name formals body pos rootScope bodyScope) s := by
  unfold functionDecl
  refine Action.Ends.bind (coherent_functionType hV hnamed h hr he ht hrest hbody)
    fun r s1 ⟨h1, hr1⟩ => ?_
  have hgen : EndsCoherent V rest past (generalizeFunction name rootScope r.1 r.2) s1 := by
    refine ends_generalizeFunction.mono ?_ (fun _ _ => False.elim) fun _ => id
    rintro - s2 (rfl | ⟨env, hm, rfl⟩)
    · exact h1.next
    · exact h1.generalize hr1 hm env rfl rfl rfl
  refine Action.Ends.bind hgen fun _ s2 h2 => ?_
  refine Action.Ends.bind (readTable_ends (Q := fun _ => Coherent V.tree rest past)
    (fun _ _ => h2) fun _ _ => trivial) fun u s3 h3 => ?_
  refine Action.Ends.bind (record_ends (Q := fun _ => Coherent V.tree rest past)
    (h3.congr rfl rfl rfl)) fun _ s4 h4 => ?_
  exact Action.ends_pure h4

/-- What is left to do of a statement that was walked over. -/
theorem coherent_topLevel_of_stmt (h : EndsCoherent V rest past (stmt opts t) s) :
    EndsCoherent V rest past (topLevel opts t) s := by
  unfold topLevel
  refine Action.Ends.bind h fun u s1 h1 => ?_
  refine Action.ends_get_bind ?_
  dsimp only
  split
  · refine Action.Ends.bind (h1.after (trace_solveQueue ⟨h1.wf, h1.scopes⟩)) fun _ s2 h2 => ?_
    exact readTable_ends (fun _ _ => h2) fun _ _ => trivial
  · exact readTable_ends (fun _ _ => h1) fun _ _ => trivial

/-- One statement of the root scope. -/
theorem coherent_topLevel (hV : V.Bound) (hnamed : V.tree.NamesRoot)
    (h : Coherent V.tree (t :: rest) past s) (hr : s.returns = []) (he : s.events = [])
    (hrest : ∀ x ∈ t.declaredName?, ∀ t' ∈ rest, t'.declaredName? ≠ some x) (ht : TopPlaced V t) :
    EndsCoherent V rest past (topLevel opts t) s := by
  have h0 : (tracing V).At none s := ⟨⟨h.wf, h.scopes⟩, by rw [hr]; rfl⟩
  refine coherent_topLevel_of_stmt ?_
  cases t with
  | funDecl x fs b u p s0 s1 =>
    cases b with
    | none =>
      refine h.next.after (Q := fun _ _ => True) ?_
      unfold stmt
      exact (tracing_laws V).pure h0 trivial
    | some b =>
      obtain ⟨rfl, -, hb, -⟩ := ht
      rw [stmt_funDecl]
      refine Action.ends_get_bind ?_
      refine Action.ends_modify_bind ?_
      have h2 : Coherent V.tree (.funDecl x fs (some b) u p rootScope s1 :: rest) past
          { s with queue := [] } := h.congr rfl rfl rfl
      refine Action.Ends.bind (coherent_functionDecl hV hnamed h2 hr he rfl (hrest x rfl) hb)
        fun u s3 h3 => ?_
      refine Action.ends_modify_bind ?_
      exact Action.ends_pure (h3.congr rfl rfl rfl)
  | _ => exact h.next.after ((tracing_rules hV opts).stmt _ ht h0)

theorem outcome_coherent {F : ScopeTree} {o : Outcome} (hV : V.Bound) (hF : V.tree = F)
    (hnamed : F.NamesRoot) (ht : TopPlaced V t)
    (hrest : ∀ x ∈ t.declaredName?, ∀ t' ∈ rest, t'.declaredName? ≠ some x) (hr : s.returns = [])
    (h : Coherent F (t :: rest) past { s with events := [] })
    (ho : outcome opts t s = .ok (o, s')) :
    Coherent F rest (past ++ Event.uses o.events) { s' with events := [] } := by
  subst hF
  have hend : (topLevel opts t).Ends { s with events := [] } _ _ _ :=
    coherent_topLevel hV hnamed h hr rfl hrest ht
  obtain ⟨τ, rfl, h'⟩ | ⟨e, s1, rfl, rfl, h'⟩ := outcome_of_ends hend ho
  · exact h'.close rfl rfl rfl
  · exact h'.close rfl rfl rfl

end

/-- Statements that lie in regions of one tree and declare different names, checked in turn. -/
theorem outcomes_coherent {opts : CheckOptions} {F : ScopeTree} {P : List (Stmt Span)}
    (hF : RootBindings P [] F) {n : Nat} {ts : List (Stmt Span)} (hts : AllPlaced F n ts) :
    Program.DeclaresOnce ts → ∀ {past : List (SymbolId × Ty)} {s s' : CheckState}
      {os : List Outcome}, Between F n s → Coherent F ts past { s with events := [] } →
      outcomes opts ts s = .ok (os, s') →
      Coherent F [] (past ++ os.flatMap fun o => Event.uses o.events) { s' with events := [] } := by
  induction hts with
  | nil n =>
    intro _ past s s' os _ h ho
    obtain ⟨rfl, rfl⟩ := Prod.mk.inj (Except.ok.inj ho)
    simpa using h
  | @cons V t ts hV hk hreg hle ht _ ih =>
    intro hd past s s' os hs h ho
    obtain ⟨hrest, hd⟩ := List.pairwise_cons.1 hd
    unfold outcomes at ho
    obtain ⟨⟨o, s1⟩, ho1, ho⟩ := Action.except_bind_eq_ok.1 ho
    obtain ⟨⟨os', s2⟩, ho2, ho⟩ := Action.except_bind_eq_ok.1 ho
    obtain ⟨rfl, rfl⟩ := Prod.mk.inj (Except.ok.inj ho)
    have hb : V.Bound := by
      subst hV
      exact ⟨hk, hF.root, hreg, hF.closed⟩
    have h1 := outcome_coherent hb hV hF.named ht (fun x hx t' ht' => hrest t' ht' x hx)
      hs.returns h ho1
    have h2 := ih hd (outcome_between hb hV hle ht hs ho1) h1 ho2
    rwa [List.append_assoc] at h2

/-- With nothing to come every use is covered by the scheme of its symbol, provided the slots guard
what is quantified. -/
theorem exists_covers {F : ScopeTree} {a b : Nat} {Q : List TyVar} {s : CheckState}
    {past : List (SymbolId × Ty)} (hg : Guarded F a b Q s)
    (h : Coherent F [] past { s with events := [] }) {u : SymbolId × Ty} (hu : u ∈ past) :
    ∃ σ τ t, s.scopes.scheme? u.1 = some σ ∧ s.table.checkedResolveScheme σ = .ok τ ∧
      s.table.checkedResolve u.2 = .ok t ∧ τ.Covers t := by
  have hQ : ∀ y σ, s.scopes.scheme? y = some σ → ∀ q ∈ σ.vars, q ∈ Q := fun y σ hσ q hq =>
    (hg.poly y σ hσ (List.ne_nil_of_mem hq)).2.1 q hq
  have hunbound : ∀ σ, s.scopes.scheme? u.1 = some σ → ∀ q ∈ σ.vars, s.table.Unbound q :=
    fun σ hσ q hq => hg.unbound q (hQ u.1 σ hσ q hq)
  suffices hcov : ∃ σ, s.scopes.scheme? u.1 = some σ ∧ s.table.Minted u.2 ∧
      (s.table.resolveScheme σ).Covers (s.table.resolve u.2) by
    obtain ⟨σ, hσ, hm, hcov⟩ := hcov
    exact ⟨σ, _, _, hσ, checkedResolveScheme_of_minted (h.minted u.1 σ hσ),
      checkedResolve_of_minted hm, hcov⟩
  obtain ⟨σ, hσ, ht⟩ | ⟨⟨σ, hσ, hm, hs⟩, -⟩ := h.uses u (.inl hu)
  · refine ⟨σ, hσ, ht.minted (h.minted u.1 σ hσ), ht.covers h.wf (hunbound σ hσ) ?_⟩
    intro v hv hn w hw hq
    have hr : F.Rooted u.1 := (h.poly u.1 σ hσ (List.ne_nil_of_mem hq)).1
    exact hg.slots u.1 σ (.inl hr) hσ v hv hn w hw (hQ u.1 σ hσ w hq)
  · exact ⟨σ, hσ, hm, h.wf.covers_of_same (hunbound σ hσ) hs⟩

end Check

/-- Every read and every call of a symbol, before its generalization or after it, took a type that,
resolved at the end, is covered by the symbol's final scheme as resolved then: replacing quantified
variables of the scheme alone makes it the same type. The statement that it stands in need not
succeed; only the root scope has to declare each name once. -/
theorem Program.uses_coherent (opts : CheckOptions) (P : Program Span) (hP : P.DeclaresOnce)
    (hc : P.TypesClosed) {R : CheckRun} (h : P.bind.1.checkRun opts P.bind.2 = .ok R) :
    ∀ o ∈ R.outcomes, ∀ pos x t, .read pos x t ∈ o.events ∨ .call pos x t ∈ o.events →
      ∃ σ τ u, R.final.scopes.scheme? x = some σ ∧ R.final.table.checkedResolveScheme σ = .ok τ ∧
        R.final.table.checkedResolve t = .ok u ∧ τ.Covers u := by
  obtain ⟨hF, n, hts⟩ := Program.bind_placed hP.hidesNoOpenSlot hc
  unfold checkRun at h
  obtain ⟨⟨os, s⟩, ho, h⟩ := Action.except_bind_eq_ok.1 h
  obtain rfl := Except.ok.inj h
  have hstart := Check.between_start hF.closed n
  obtain ⟨n', ⟨Q, hg⟩, -, -⟩ := Check.outcomes_between hF hts hstart ho
  have hcoh := Check.outcomes_coherent hF hts hP.bind hstart (.start hF.closed) ho
  intro o hm pos x t he
  refine Check.exists_covers hg hcoh (u := (x, t)) (List.mem_flatMap.2 ⟨o, hm, ?_⟩)
  obtain he | he := he <;> exact List.mem_filterMap.2 ⟨_, he, rfl⟩

/-- `fun f(a) { g(a) }; fun g(b) { if true { b } else { g(b) } };`
`fun pick(c, d) { if true { c } else { pick(c, d) } }; let n = pick(f(3), true);`
`let m = pick(true, n)` -/
def useSample : Program Span := Program.number 0 [
  .funDecl "f" [⟨"a", none⟩] (some (.call "g" none [.var "a" none 0 none] none 0)) none none 0 0,
  .funDecl "g" [⟨"b", none⟩] (some (.cond (.literal (.bool true) none) (.var "b" none 0 none)
    (some (.call "g" none [.var "b" none 0 none] none 0)) none)) none none 0 0,
  .funDecl "pick" [⟨"c", none⟩, ⟨"d", none⟩] (some (.cond (.literal (.bool true) none)
    (.var "c" none 0 none) (some (.call "pick" none [.var "c" none 0 none, .var "d" none 0 none]
      none 0)) none)) none none 0 0,
  .varDecl "n" none (.call "pick" none [.call "f" none [.literal (.int 3) none] none 0,
    .literal (.bool true) none] none 0) none 0 none,
  .varDecl "m" none (.call "pick" none [.literal (.bool true) none, .var "n" none 0 none] none 0)
    none 0 none]

/-- The types that were taken for `pick`, as its body calls it and as the variables do. -/
theorem uses_coherent_useSample : ∃ R,
    useSample.bind.1.checkRun ⟨10000⟩ useSample.bind.2 = .ok R ∧
      R.final.scopes.scheme? 2 = some ⟨[14, 12], .fn [.var 14, .var 12] (.var 14)⟩ ∧
      ((R.outcomes.flatMap fun o => Event.uses o.events).filter fun u => u.1 = 2).map
        (fun u => R.final.table.resolve u.2) = [.fn [.var 14, .var 12] (.var 14),
          .fn [.int, .bool] .int, .fn [.bool, .int] .bool] ∧
      ∀ o ∈ R.outcomes, ∀ pos x t, .read pos x t ∈ o.events ∨ .call pos x t ∈ o.events →
        ∃ σ τ u, R.final.scopes.scheme? x = some σ ∧ R.final.table.checkedResolveScheme σ = .ok τ ∧
          R.final.table.checkedResolve t = .ok u ∧ τ.Covers u := by
  have h : (useSample.bind.1.checkRun ⟨10000⟩ useSample.bind.2).toOption.map (fun R =>
      (R.final.scopes.scheme? 2,
        ((R.outcomes.flatMap fun o => Event.uses o.events).filter fun u => u.1 = 2).map
          fun u => R.final.table.resolve u.2)) =
      some (some ⟨[14, 12], .fn [.var 14, .var 12] (.var 14)⟩,
        [.fn [.var 14, .var 12] (.var 14), .fn [.int, .bool] .int, .fn [.bool, .int] .bool]) := by
    decide +kernel
  obtain ⟨R, hR, h⟩ := Option.map_eq_some_iff.1 h
  have hR := Action.eq_ok_of_toOption hR
  obtain ⟨hs, hu⟩ := Prod.mk.inj h
  exact ⟨R, hR, hs, hu, Program.uses_coherent ⟨10000⟩ useSample (by decide +kernel)
    (by decide +kernel) hR⟩

end TypeInference
