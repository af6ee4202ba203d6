import TypeInference.Proofs.Polymorphism.Choices
import TypeInference.Proofs.Unify.Reachable

/-!
# Generalized types and their copies

A type that is generalized quantifies over its free variables outside the environment, in the order
in which they first occur (`Wf.generalizes`). An instance of it is a copy with new variables for
them: the choices of one instantiation are as many variables as were met, all minted on the way
(`renaming_of_choices`). A second instance takes variables that the first one did not, for
they are minted later (`generalize_instantiate_twice`).
-/

namespace TypeInference

/-! ## First occurrences -/

/-- Of two elements that a filter lets through, it leaves the one that comes first in front. -/
theorem idxOf_lt_of_filter {α : Type} [DecidableEq α] {p : α → Bool} {x y : α} (hx : p x)
    (hy : p y) : ∀ {l : List α}, (l.filter p).idxOf x < (l.filter p).idxOf y →
      l.idxOf x < l.idxOf y
  | [], h => h
  | a :: l, h => by
    by_cases hax : a = x
    · subst hax
      rw [List.filter_cons_of_pos hx, List.idxOf_cons_self] at h
      by_cases hay : a = y
      · subst hay
        rw [List.idxOf_cons_self] at h
        exact absurd h (Nat.lt_irrefl 0)
      · rw [List.idxOf_cons_self, List.idxOf_cons_ne l hay]
        exact Nat.succ_pos _
    · by_cases hay : a = y
      · subst hay
        rw [List.filter_cons_of_pos hy, List.idxOf_cons_self] at h
        exact absurd h (Nat.not_lt_zero _)
      · rw [List.idxOf_cons_ne l hax, List.idxOf_cons_ne l hay]
        refine Nat.succ_lt_succ (idxOf_lt_of_filter hx hy ?_)
        by_cases ha : p a
        · rw [List.filter_cons_of_pos ha, List.idxOf_cons_ne _ hax, List.idxOf_cons_ne _ hay] at h
          exact Nat.lt_of_succ_lt_succ h
        · rwa [List.filter_cons_of_neg ha] at h

/-- What is listed once each is listed in the order of first occurrence. -/
theorem eraseDups_pairwise_idxOf {α : Type} [DecidableEq α] (l : List α) :
    l.eraseDups.Pairwise fun x y => l.idxOf x < l.idxOf y := by
  induction hn : l.length using Nat.strongRecOn generalizing l with
  | _ n ih =>
    subst hn
    cases l with
    | nil => exact .nil
    | cons a l =>
      have hne : ∀ {x}, x ∈ (l.filter fun b => !b == a).eraseDups → a ≠ x := fun {x} hx he => by
        simp [List.mem_eraseDups, he] at hx
      rw [List.eraseDups_cons, List.pairwise_cons]
      refine ⟨fun x hx => ?_, ?_⟩
      · rw [List.idxOf_cons_self, List.idxOf_cons_ne l (hne hx)]
        exact Nat.succ_pos _
      · have hlt : (l.filter fun b => !b == a).length < (a :: l).length :=
          Nat.lt_succ_of_le (List.length_filter_le _ l)
        refine (ih _ hlt _ rfl).imp_of_mem fun {x y} hx hy h => ?_
        rw [List.idxOf_cons_ne l (hne hx), List.idxOf_cons_ne l (hne hy)]
        exact Nat.succ_lt_succ (idxOf_lt_of_filter (by simpa using (hne hx).symm)
          (by simpa using (hne hy).symm) h)

namespace VarTable

open Instantiate

/-- `s` is what `t` is generalized to: over its unbound roots outside `env`, each once, in the order
of first occurrence. -/
structure Generalizes (T : VarTable) (t : Ty) (env : List TyVar) (s : Scheme) : Prop where
  ty : s.ty = T.resolve t
  mem_vars : ∀ v, v ∈ s.vars ↔ v ∈ (T.resolve t).occurrences ∧ T.Unbound v ∧ v ∉ env
  nodup : s.vars.Nodup
  ordered : s.vars.Pairwise fun v w =>
    (T.resolve t).occurrences.idxOf v < (T.resolve t).occurrences.idxOf w

/-- Instantiating `s` in `T` answered `u` and left `T'`: the classes and bindings of `T`, and a copy
of the scheme's type in which `ρ` renames the quantified variables to new ones. -/
structure Copied (T : VarTable) (s : Scheme) (u : Ty) (T' : VarTable) (ρ : TyVar → TyVar) :
    Prop where
  outcome : (instantiate s).outcome T = (.ok u, T')
  mints : T.Mints T'
  new : ∀ v ∈ s.vars, T.size ≤ ρ v ∧ ρ v < T'.size
  fixed : ∀ v, v ∉ s.vars → ρ v = v
  injective : ∀ v w, v < T.size → w < T.size → ρ v = ρ w → v = w
  resolve : T'.checkedResolve u = .ok (s.ty.bind fun v => .var (ρ v))

section
variable {T T' : VarTable} {s : Scheme} {t u : Ty} {v : TyVar} {known : KnownParams}
  {env : List TyVar}

theorem Wf.generalizes (h : T.Wf) (ht : T.Minted t) (env : List TyVar) :
    T.Generalizes t env (T.generalize t env) := by
  have hord : (T.generalize t env).vars.Pairwise fun v w =>
      (T.resolve t).occurrences.idxOf v < (T.resolve t).occurrences.idxOf w :=
    (eraseDups_pairwise_idxOf (T.resolve t).occurrences).filter _
  refine ⟨rfl, fun v => ?_, hord.imp fun hlt he => ?_, hord⟩
  · rw [mem_vars_generalize]
    exact and_congr_right fun hv => ⟨fun hn => ⟨h.unbound_of_mem_resolve ht hv, hn⟩, And.right⟩
  · rw [he] at hlt
    exact Nat.lt_irrefl _ hlt

/-! ## Copies -/

theorem expand_eq_self (h : ∀ v ∈ t.occurrences, T.value? v = none) (keep : List TyVar) :
    T.expand keep t = t :=
  (Ty.bind_congr fun v hv => expandVar_of_unbound (h v hv) keep _).trans (Ty.bind_var t)

theorem instantiate_outcome (ho : (instantiateWith s).outcome (T, ∅) = (.ok u, (T', known))) :
    (instantiate s).outcome T = (.ok u, T') := by
  have hi : (instantiate s).outcome T = (((instantiateWith s).outcome (T, ∅)).1,
    ((instantiateWith s).outcome (T, ∅)).2.1) := rfl
  rw [hi, ho]

/-- A type of unbound roots is instantiated by replacing its quantified variables. -/
theorem Instance.eq_bind (hi : T.Instance s T' known u)
    (hs : ∀ v ∈ s.ty.occurrences, T.value? v = none) :
    u = s.ty.bind (replacement s.vars known) := by
  by_cases hv : s.vars = []
  · have hr : replacement s.vars known = .var := funext fun v => if_neg (by simp [hv])
    rw [hi.mono hv, hr, Ty.bind_var]
  · rw [(hi.poly hv).1, expand_eq_self hs]

/-- The choices of one instantiation rename the quantified variables. -/
theorem renaming_of_choices (hi : Instantiated T s ∅ u T' known)
    (hs : ∀ v ∈ s.ty.occurrences, T.Unbound v) (hq : ∀ v ∈ s.vars, v ∈ s.ty.occurrences) :
    ∃ ρ : TyVar → TyVar, (∀ v, replacement s.vars known v = .var (ρ v)) ∧
      (∀ v ∈ s.vars, T.size ≤ ρ v ∧ ρ v < T'.size) ∧ (∀ v, v ∉ s.vars → ρ v = v) ∧
      ∀ v w, v < T.size → w < T.size → ρ v = ρ w → v = w := by
  have hchosen : ∀ v ∈ s.vars, ∃ w, known.get? v = some (.var w) ∧ T.size ≤ w ∧ w < T'.size := by
    intro v hv
    have hoc : v ∈ (T.expand s.vars s.ty).occurrences := by
      rw [expand_eq_self fun x hx => (hs x hx).value]
      exact hq v hv
    obtain ⟨t, ht⟩ := Option.isSome_iff_exists.1 ((hi.picks.keys v).2 (.inr ⟨hv, hoc⟩))
    obtain hn | ⟨w, rfl, hw⟩ := hi.chosen.new v t ht
    · cases hn
    · exact ⟨w, ht, hw⟩
  have hvar : ∀ v, ∃ w, replacement s.vars known v = .var w ∧
      (v ∈ s.vars → known.get? v = some (.var w) ∧ T.size ≤ w ∧ w < T'.size) ∧
      (v ∉ s.vars → w = v) := fun v => by
    by_cases hv : v ∈ s.vars
    · obtain ⟨w, hw, hlt⟩ := hchosen v hv
      refine ⟨w, ?_, fun _ => ⟨hw, hlt⟩, fun hn => absurd hv hn⟩
      rw [replacement, if_pos hv, hw, Option.getD_some]
    · exact ⟨v, if_neg hv, fun hm => absurd hm hv, fun _ => rfl⟩
  choose ρ hρ hnew hfix using hvar
  refine ⟨ρ, hρ, fun v hv => (hnew v hv).2, hfix, fun v w hv hw he => ?_⟩
  by_cases hvq : v ∈ s.vars
  · by_cases hwq : w ∈ s.vars
    · exact hi.picks.distinct v w _ rfl rfl (hnew v hvq).1 (he ▸ (hnew w hwq).1)
    · rw [hfix w hwq] at he
      exact absurd hw (Nat.not_lt.2 (he ▸ (hnew v hvq).2.1))
  · by_cases hwq : w ∈ s.vars
    · rw [hfix v hvq] at he
      exact absurd hv (Nat.not_lt.2 (he ▸ (hnew w hwq).2.1))
    · rwa [hfix v hvq, hfix w hwq] at he

/-- A scheme over unbound roots, of which it quantifies over some that occur, is copied. -/
theorem Wf.exists_copied (h : T.Wf) (hs : ∀ v ∈ s.ty.occurrences, T.Unbound v)
    (hq : ∀ v ∈ s.vars, v ∈ s.ty.occurrences) :
    ∃ u T' ρ, T'.Wf ∧ T.Copied s u T' ρ := by
  have hm : T.SchemeMinted s := h.schemeMinted fun v hv => (hs v hv).lt
  obtain ⟨u, T', known, ho, hi⟩ := h.exists_instantiated hm ∅
  obtain ⟨ρ, hρ, hnew, hfix, hinj⟩ := renaming_of_choices hi hs hq
  have hu : u = s.ty.bind fun v => .var (ρ v) := by
    rw [hi.result.eq_bind fun v hv => (hs v hv).value]
    exact Ty.bind_congr fun v _ => hρ v
  have hub : ∀ v ∈ s.ty.occurrences, T'.Unbound (ρ v) := fun v hv => by
    by_cases hvq : v ∈ s.vars
    · exact hi.mints.unbound_new (hnew v hvq).1 (hnew v hvq).2
    · rw [hfix v hvq]
      exact hi.mints.unbound (hs v hv)
  refine ⟨u, T', ρ, hi.wf, instantiate_outcome ho, hi.mints, hnew, hfix, hinj, ?_⟩
  have hmu : T'.Minted u := fun w hw => by
    rw [hu] at hw
    obtain ⟨v, hv, hw⟩ := Ty.mem_occurrences_bind.1 hw
    exact List.mem_singleton.1 hw ▸ (hub v hv).lt
  rw [checkedResolve_of_minted hmu, hu, resolve_bind]
  refine congrArg Except.ok (Ty.bind_congr fun v hv => ?_)
  rw [hi.wf.resolve_unbound (hub v hv).value, (hub v hv).root]

end

variable {T : VarTable} {t : Ty}

/-- A type over the variables of a reachable table can be generalized, and what comes of it can be
instantiated any time: to a copy whose quantified variables are new ones, different in each copy,
while the table's classes and bindings stay. -/
theorem generalize_instantiate_twice (hT : Reachable T) (ht : T.Minted t) (env : List TyVar) :
    ∃ s u₁ T₁ ρ₁ u₂ T₂ ρ₂, T.checkedGeneralize t env = .ok s ∧ T.Generalizes t env s ∧
      T.Copied s u₁ T₁ ρ₁ ∧ T₁.Copied s u₂ T₂ ρ₂ ∧
      T₂.checkedResolve u₁ = T₁.checkedResolve u₁ ∧ ∀ v ∈ s.vars, ∀ w ∈ s.vars, ρ₁ v ≠ ρ₂ w := by
  have h := hT.wf
  have hg := h.generalizes ht env
  have hs : ∀ v ∈ (T.generalize t env).ty.occurrences, T.Unbound v := fun v hv =>
    h.unbound_of_mem_resolve ht hv
  have hq : ∀ v ∈ (T.generalize t env).vars, v ∈ (T.generalize t env).ty.occurrences :=
    fun v hv => ((hg.mem_vars v).1 hv).1
  obtain ⟨u₁, T₁, ρ₁, h₁, hc₁⟩ := h.exists_copied hs hq
  obtain ⟨u₂, T₂, ρ₂, h₂, hc₂⟩ := h₁.exists_copied (fun v hv => hc₁.mints.unbound (hs v hv)) hq
  refine ⟨_, u₁, T₁, ρ₁, u₂, T₂, ρ₂, checkedGeneralize_of_minted ht env, hg, hc₁, hc₂, ?_, ?_⟩
  · obtain ⟨-, hm⟩ | ⟨⟨f, hf⟩, -⟩ := T₁.checkedResolve_cases u₁
    · rw [checkedResolve_of_minted hm, checkedResolve_of_minted (hm.mono hc₂.mints.size_le),
        hc₂.mints.resolve_eq h₁ h₂]
    · cases hf.symm.trans hc₁.resolve
  · intro v hv w hw he
    exact Nat.not_lt.2 (hc₂.new w hw).1 (he ▸ (hc₁.new v hv).2)

/-- A function over five variables, of which one is bound, two are one class and that class is in
the environment. -/
theorem generalize_instantiate_twice_function :
    let a : Ty := .fn [.var 2, .var 3] .int
    let b : Ty := .fn [.ptr (.var 0), .var 1] .int
    let T : VarTable :=
      ⟨#[.root 0 none, .root 1 none, .root 0 (some (.ptr (.var 0))), .link 1, .root 0 none]⟩
    let s : Scheme := ⟨[4, 0], .fn [.var 4, .ptr (.var 0), .var 1] (.var 0)⟩
    let T₁ := T.mint.2.mint.2
    let T₂ := T₁.mint.2.mint.2
    (unify a b .builtin).outcome (∅ : VarTable).mint.2.mint.2.mint.2.mint.2.mint.2 = (.ok (), T) ∧
      T.checkedGeneralize (.fn [.var 4, .var 2, .var 3] (.var 0)) [1] = .ok s ∧
      ∃ ρ₁ ρ₂, T.Copied s (.fn [.var 5, .ptr (.var 6), .var 1] (.var 6)) T₁ ρ₁ ∧
        T₁.Copied s (.fn [.var 7, .ptr (.var 8), .var 1] (.var 8)) T₂ ρ₂ ∧
        ∀ v ∈ s.vars, ∀ w ∈ s.vars, ρ₁ v ≠ ρ₂ w := by
  intro a b T s T₁ T₂
  have hu : (unify a b .builtin).outcome (∅ : VarTable).mint.2.mint.2.mint.2.mint.2.mint.2 =
      (.ok (), T) := by decide +kernel
  have hT : Reachable T := .tail (.tail (.tail (.tail (.tail (.tail .refl (.mint _)) (.mint _))
    (.mint _)) (.mint _)) (.mint _)) (.unify a b .builtin (Action.answers_of_ok hu))
  have hg : T.checkedGeneralize (.fn [.var 4, .var 2, .var 3] (.var 0)) [1] = .ok s := by
    decide +kernel
  have h₁ : (instantiate s).outcome T =
      (.ok (.fn [.var 5, .ptr (.var 6), .var 1] (.var 6)), T₁) := by decide +kernel
  have h₂ : (instantiate s).outcome T₁ =
      (.ok (.fn [.var 7, .ptr (.var 8), .var 1] (.var 8)), T₂) := by decide +kernel
  obtain ⟨s', u₁, T₁', ρ₁, u₂, T₂', ρ₂, hg', -, hc₁, hc₂, -, hne⟩ :=
    generalize_instantiate_twice hT (t := .fn [.var 4, .var 2, .var 3] (.var 0)) (by decide) [1]
  cases hg.symm.trans hg'
  cases h₁.symm.trans hc₁.outcome
  cases h₂.symm.trans hc₂.outcome
  exact ⟨hu, hg, ρ₁, ρ₂, hc₁, hc₂, hne⟩

end VarTable

end TypeInference
