import TypeInference.Polymorphism
import TypeInference.Proofs.Action
import TypeInference.Proofs.VarTable.Checks
import TypeInference.Proofs.VarTable.Growth

/-!
# What instantiation leaves

`Mints T T'`: `T'` is `T` with further variables, each unbound and alone in its class; nothing reads
differently (`Mints.resolve_eq`). Instantiation mints and does nothing else to the table
(`Wf.instantiateWith_ends`). A variable of its answer is a new one, stands in a type chosen before,
or is one that the scheme mentions around its quantified variables.
-/

namespace TypeInference

namespace VarTable

/-- `T'` is `T` with further variables, each unbound and alone in its class. -/
structure Mints (T T' : VarTable) : Prop where
  size_le : T.size ≤ T'.size
  root : ∀ v, T'.root v = T.root v
  value : ∀ v, T'.value? v = T.value? v

section
variable {T T' T'' : VarTable}

theorem Mints.refl (T : VarTable) : T.Mints T := ⟨Nat.le_refl _, fun _ => rfl, fun _ => rfl⟩

theorem Mints.trans (h : T.Mints T') (h' : T'.Mints T'') : T.Mints T'' :=
  ⟨Nat.le_trans h.size_le h'.size_le, fun v => (h'.root v).trans (h.root v),
    fun v => (h'.value v).trans (h.value v)⟩

theorem Linked.mints (h : T.Linked) : T.Mints T.mint.2 := ⟨by simp, h.root_mint, h.value?_mint⟩

theorem Mints.extends (h : T.Mints T') (hT : T.Linked) : T.Extends T' :=
  ⟨h.size_le, fun v => by rw [h.root, h.root, hT.root_root], fun v t ht => by rwa [h.value]⟩

theorem Mints.unbound (hm : T.Mints T') {v : TyVar} (hv : T.Unbound v) : T'.Unbound v :=
  ⟨Nat.lt_of_lt_of_le hv.lt hm.size_le, (hm.root v).trans hv.root, (hm.value v).trans hv.value⟩

theorem Mints.unbound_new (hm : T.Mints T') {v : TyVar} (hv : T.size ≤ v) (hv' : v < T'.size) :
    T'.Unbound v :=
  ⟨hv', (hm.root v).trans (root_of_size_le hv), (hm.value v).trans (value?_of_size_le hv)⟩

theorem Mints.resolve_eq (h : T.Mints T') (hT : T.Wf) (hT' : T'.Wf) (t : Ty) :
    T'.resolve t = T.resolve t := by
  have hvar : ∀ v, T'.resolve (.var v) = T.resolve (.var v) := fun v => by
    induction v using hT.induct with
    | step v ih =>
      rw [hT.resolve_var, hT'.resolve_var, h.value, h.root]
      cases hv : T.value? v with
      | none => rfl
      | some t =>
        show T'.resolve t = T.resolve t
        rw [resolve_eq_bind, resolve_eq_bind t]
        exact Ty.bind_congr fun w hw => ih t hv w hw
  rw [resolve_eq_bind, resolve_eq_bind t]
  exact Ty.bind_congr fun v _ => hvar v

end

end VarTable

namespace Instantiate

open VarTable

/-- What choices for quantified variables become: those made stay, and a new choice is a new
variable. -/
structure Chosen (T T' : VarTable) (known known' : KnownParams) : Prop where
  kept : ∀ v t, known.get? v = some t → known'.get? v = some t
  new : ∀ v t, known'.get? v = some t → known.get? v = some t ∨
    ∃ w, t = .var w ∧ T.size ≤ w ∧ w < T'.size

variable {T T' T'' : VarTable} {known known' known'' : KnownParams}

theorem Chosen.refl : Chosen T T' known known := ⟨fun _ _ => id, fun _ _ => .inl⟩

theorem Chosen.trans (h : Chosen T T' known known') (h' : Chosen T' T'' known' known'')
    (hs : T.size ≤ T'.size) (hs' : T'.size ≤ T''.size) : Chosen T T'' known known'' where
  kept v t ht := h'.kept v t (h.kept v t ht)
  new v t ht := by
    rcases h'.new v t ht with ht | ⟨w, rfl, hw, hw'⟩
    · rcases h.new v t ht with ht | ⟨w, rfl, hw, hw'⟩
      · exact .inl ht
      · exact .inr ⟨w, rfl, hw, Nat.lt_of_lt_of_le hw' hs'⟩
    · exact .inr ⟨w, rfl, Nat.le_trans hs hw, hw'⟩

/-- Later choices leave alone what is replaced already. -/
theorem replacement_later {quantified : List TyVar} {v : TyVar}
    (hv : v ∈ quantified → ∃ t, known.get? v = some t)
    (hk : ∀ t, known.get? v = some t → known'.get? v = some t) :
    replacement quantified known v = replacement quantified known' v := by
  unfold replacement
  split
  · obtain ⟨t, ht⟩ := hv ‹_›
    rw [ht, hk t ht]
  · rfl

/-- What a variable that was met has: a choice if it is quantified, else a place in the table. -/
structure Met (quantified : List TyVar) (T : VarTable) (known : KnownParams) (v : TyVar) :
    Prop where
  chosen : v ∈ quantified → ∃ t, known.get? v = some t
  minted : v ∉ quantified → v < T.size

theorem Met.later {quantified : List TyVar} {v : TyVar} (h : Met quantified T known v)
    (hs : T.size ≤ T'.size) (hc : Chosen T T' known known') : Met quantified T' known' v where
  chosen hq := have ⟨t, ht⟩ := h.chosen hq; ⟨t, hc.kept v t ht⟩
  minted hq := Nat.lt_of_lt_of_le (h.minted hq) hs

theorem meet_ends (h : T.Wf) (quantified : List TyVar) (v : TyVar) :
    (meet quantified v).Ends (T, known)
      (fun _ st => st.1.Wf ∧ T.Mints st.1 ∧ Chosen T st.1 known st.2 ∧ Met quantified st.1 st.2 v)
      (fun _ _ => False) fun _ => ¬ (v ∉ quantified → v < T.size) := by
  unfold meet
  refine Action.ends_get_bind ?_
  by_cases hq : v ∈ quantified
  · simp only [hq, if_true]
    by_cases hk : known.contains v
    · simp only [hk, if_true]
      exact Action.ends_pure ⟨h, .refl T, .refl, fun _ => Option.isSome_iff_exists.1 hk,
        fun hn => absurd hq hn⟩
    · simp only [hk]
      refine Action.ends_set ⟨h.mint, h.mints, ⟨fun u t ht => ?_, fun u t ht => ?_⟩,
        fun _ => ⟨_, Assoc.get?_insert_self ..⟩, fun hn => absurd hq hn⟩
      · rw [Assoc.get?_insert_of_ne _ fun he => hk ?_]
        · exact ht
        · subst he
          simp [Assoc.contains, ht]
      · by_cases he : v = u
        · subst he
          simp only [Assoc.get?_insert_self, Option.some.injEq] at ht
          exact .inr ⟨T.size, ht.symm, Nat.le_refl _, by simp⟩
        · rw [Assoc.get?_insert_of_ne _ he] at ht
          exact .inl ht
  · simp only [hq, if_false]
    obtain ⟨hr, hv⟩ | ⟨⟨f, hr⟩, hv⟩ := T.requireVar_cases v
    · rw [hr]
      exact Action.ends_pure ⟨h, .refl T, .refl, fun hq' => absurd hq' hq, fun _ => hv⟩
    · rw [hr]
      exact fun hm => hv (hm not_false)

theorem forM_meet_ends (quantified : List TyVar) : ∀ (vs : List TyVar) {T : VarTable}
    {known : KnownParams}, T.Wf → (vs.forM (meet quantified)).Ends (T, known)
      (fun _ st => st.1.Wf ∧ T.Mints st.1 ∧ Chosen T st.1 known st.2 ∧
        ∀ v ∈ vs, Met quantified st.1 st.2 v)
      (fun _ _ => False) fun _ => ¬ ∀ v ∈ vs, v ∉ quantified → v < T.size
  | [], T, known, h => ⟨h, .refl T, .refl, nofun⟩
  | v :: vs, T, known, h => by
    refine Action.Ends.bind (x := meet quantified v) ((meet_ends h quantified v).mono
      (fun _ _ => id) (fun _ _ => id) fun f hf hvs => hf (List.forall_mem_cons.1 hvs).1)
      fun _ st ⟨h1, hm1, hc1, hv⟩ => ?_
    refine (forM_meet_ends quantified vs h1).mono (fun _ st' ⟨h2, hm2, hc2, hvs⟩ => ?_)
      (fun _ _ => id) fun f hf hvs => hf fun u hu hq => ?_
    · refine ⟨h2, hm1.trans hm2, hc1.trans hc2 hm1.size_le hm2.size_le, ?_⟩
      exact List.forall_mem_cons.2 ⟨hv.later hm2.size_le hc2, hvs⟩
    · exact Nat.lt_of_lt_of_le ((List.forall_mem_cons.1 hvs).2 u hu hq) hm1.size_le

end Instantiate

namespace VarTable

open Instantiate

variable {T : VarTable} {s : Scheme}

/-- The variables that the scheme mentions around its quantified ones are minted. -/
def SchemeMinted (T : VarTable) (s : Scheme) : Prop :=
  s.vars ≠ [] → ∀ v ∈ (T.expand s.vars s.ty).occurrences, v ∉ s.vars → v < T.size

/-- What an instantiation answers: the type of a scheme without quantified variables as it is
written; else the scheme's type with its quantified variables replaced by what was chosen for them.
-/
structure Instance (T : VarTable) (s : Scheme) (T' : VarTable) (known : KnownParams) (t : Ty) :
    Prop where
  mono : s.vars = [] → t = s.ty
  poly : s.vars ≠ [] → t = (T.expand s.vars s.ty).bind (replacement s.vars known) ∧
    ∀ v ∈ (T.expand s.vars s.ty).occurrences, Met s.vars T' known v

/-- A variable of an instance is one that the scheme mentions around its quantified variables, or
comes from a choice for one of them. -/
theorem Instance.of_mem {T' : VarTable} {known : KnownParams} {t : Ty} {w : TyVar}
    (hi : T.Instance s T' known t) (hv : s.vars ≠ []) (hw : w ∈ t.occurrences) :
    (w ∈ (T.expand s.vars s.ty).occurrences ∧ w ∉ s.vars ∧ w < T'.size) ∨
      ∃ v u, known.get? v = some u ∧ w ∈ u.occurrences := by
  obtain ⟨rfl, hmet⟩ := hi.poly hv
  obtain ⟨v, hv, hw⟩ := Ty.mem_occurrences_bind.1 hw
  unfold replacement at hw
  by_cases hq : v ∈ s.vars
  · obtain ⟨u, hu⟩ := (hmet v hv).chosen hq
    rw [if_pos hq, hu] at hw
    exact .inr ⟨v, u, hu, hw⟩
  · rw [if_neg hq] at hw
    obtain rfl := List.mem_singleton.1 hw
    exact .inl ⟨hv, hq, (hmet w hv).minted hq⟩

theorem Wf.instantiateWith_ends (h : T.Wf) (s : Scheme) (known : KnownParams) :
    (instantiateWith s).Ends (T, known)
      (fun t st => st.1.Wf ∧ T.Mints st.1 ∧ Chosen T st.1 known st.2 ∧ T.Instance s st.1 st.2 t)
      (fun _ _ => False) fun _ => ¬ T.SchemeMinted s := by
  unfold instantiateWith
  by_cases hm : s.vars = []
  · simp only [Scheme.isMono, hm, List.isEmpty_nil, if_true]
    exact Action.ends_pure ⟨h, .refl T, .refl, fun _ => rfl, fun hn => absurd hm hn⟩
  · simp only [Scheme.isMono, List.isEmpty_iff, hm]
    refine Action.ends_get_bind ?_
    refine Action.Ends.bind ((forM_meet_ends s.vars _ h).mono (fun _ _ => id) (fun _ _ => id)
      fun f hf hs => hf fun v hv => hs hm v (Ty.mem_vars.1 hv)) ?_
    rintro - st ⟨h', hmi, hc, hv⟩
    refine Action.ends_get_bind (Action.ends_pure
      ⟨h', hmi, hc, fun hn => absurd hn hm, fun _ => ?_⟩)
    exact ⟨rfl, fun v hv' => hv v (Ty.mem_vars.2 hv')⟩

theorem Wf.instantiate_ends (h : T.Wf) (s : Scheme) :
    (instantiate s).Ends T
      (fun t T' => T'.Wf ∧ T.Mints T' ∧ ∃ known, Chosen T T' ∅ known ∧ T.Instance s T' known t)
      (fun _ _ => False) fun _ => ¬ T.SchemeMinted s := by
  have hi := h.instantiateWith_ends s ∅
  unfold Action.Ends at hi ⊢
  have ho : (instantiate s).outcome T = (((instantiateWith s).outcome (T, ∅)).1,
    ((instantiateWith s).outcome (T, ∅)).2.1) := rfl
  rw [ho]
  rcases hx : (instantiateWith s).outcome (T, ∅) with ⟨(e | f) | t, T', known⟩
  · simp [hx] at hi
  · simpa [hx] using hi
  · simp only [hx] at hi ⊢
    exact ⟨hi.1, hi.2.1, known, hi.2.2⟩

/-- A scheme over minted variables can be instantiated. -/
theorem Wf.schemeMinted (h : T.Wf) (hs : T.Minted s.ty) : T.SchemeMinted s := fun _ v hv _ =>
  h.minted_expand hs s.vars v hv

/-! ## Checked generalization -/

theorem checkedSchemeFreeVars_eq_ok {σ : Scheme} {vs : List TyVar}
    (h : T.checkedSchemeFreeVars σ = .ok vs) : vs = T.schemeFreeVars σ := by
  unfold checkedSchemeFreeVars at h
  obtain ⟨_, -, h⟩ := Action.except_bind_eq_ok.1 h
  obtain ⟨_, -, h⟩ := Action.except_bind_eq_ok.1 h
  exact (Except.ok.inj h).symm

theorem checkedGeneralize_eq_ok {t : Ty} {env : List TyVar} {σ : Scheme}
    (h : T.checkedGeneralize t env = .ok σ) : T.Minted t ∧ σ = T.generalize t env := by
  unfold checkedGeneralize at h
  obtain ⟨⟨⟩, hm, h⟩ := Action.except_bind_eq_ok.1 h
  obtain ⟨-, hm'⟩ | ⟨⟨f, hf⟩, -⟩ := T.requireVars_cases t.occurrences
  · exact ⟨hm', (Except.ok.inj h).symm⟩
  · rw [hf] at hm
    cases hm

theorem checkedGeneralize_of_minted {t : Ty} (h : T.Minted t) (env : List TyVar) :
    T.checkedGeneralize t env = .ok (T.generalize t env) := by
  obtain ⟨hv, -⟩ | ⟨-, hn⟩ := T.requireVars_cases t.occurrences
  · simp only [checkedGeneralize, hv]
    rfl
  · exact absurd h hn

theorem checkedSchemeFreeVars_of_minted {σ : Scheme} (hv : ∀ v ∈ σ.vars, v < T.size)
    (ht : T.Minted σ.ty) : T.checkedSchemeFreeVars σ = .ok (T.schemeFreeVars σ) := by
  obtain ⟨h1, -⟩ | ⟨-, hn⟩ := T.requireVars_cases σ.vars
  · obtain ⟨h2, -⟩ | ⟨-, hn⟩ := T.requireVars_cases σ.ty.occurrences
    · simp only [checkedSchemeFreeVars, h1, h2]
      rfl
    · exact absurd ht hn
  · exact absurd hv hn

/-- A scheme that generalizes a type over minted variables quantifies over and mentions minted
variables only. -/
theorem Wf.minted_generalize (h : T.Wf) {t : Ty} (ht : T.Minted t) (env : List TyVar) :
    T.Minted (T.generalize t env).ty ∧ ∀ v ∈ (T.generalize t env).vars, v < T.size := by
  have hr : T.Minted (T.resolve t) := h.minted_resolve ht
  exact ⟨hr, fun v hv => hr v (Ty.mem_vars.1 (List.mem_filter.1 hv).1)⟩

theorem mem_vars_generalize {t : Ty} {env : List TyVar} {v : TyVar} :
    v ∈ (T.generalize t env).vars ↔ v ∈ (T.resolve t).occurrences ∧ v ∉ env := by
  simp only [generalize, freeVars, List.mem_filter, decide_eq_true_iff, Ty.mem_vars]

theorem Wf.unbound_of_mem_resolve (h : T.Wf) {t : Ty} (ht : T.Minted t) {v : TyVar}
    (hv : v ∈ (T.resolve t).occurrences) : T.Unbound v :=
  have ⟨hr, hn⟩ := h.of_mem_resolve hv
  ⟨h.minted_resolve ht v hv, hr, hn⟩

theorem Wf.unbound_of_generalize (h : T.Wf) {t : Ty} (ht : T.Minted t) {env : List TyVar}
    {q : TyVar} (hq : q ∈ (T.generalize t env).vars) : T.Unbound q :=
  h.unbound_of_mem_resolve ht (mem_vars_generalize.1 hq).1

end VarTable

end TypeInference
