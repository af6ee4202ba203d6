import TypeInference.Proofs.Generalization.Sparing
import TypeInference.Proofs.Unify.Reachable
import TypeInference.Proofs.Uses.Instance

/-!
# Using a scheme leaves it as it is

After a type was generalized, variables are minted, instances are made and unified with other types.
As long as no quantified variable is free in what is unified, the quantified variables are spared
(`SchemeUse.spares`, and `spares_of_uses` for any number of operations): an instance holds none of
them, nor does anything that it is made equal to. So the scheme resolves to itself, but for what
became of the variables that it does not quantify over (`scheme_intact`).
-/

namespace TypeInference

/-- `σ` is `s` with types put in, by `f`, for variables that `s` does not quantify over; no
quantified variable occurs in what is put in. -/
structure Scheme.Filled (s : Scheme) (f : TyVar → Ty) (σ : Scheme) : Prop where
  vars : σ.vars = s.vars
  ty : σ.ty = s.ty.bind f
  fixed : ∀ q ∈ s.vars, f q = .var q
  apart : ∀ v ∈ s.ty.occurrences, v ∉ s.vars → ∀ w ∈ (f v).occurrences, w ∉ s.vars

/-- A scheme over quantified variables alone has nothing to fill. -/
theorem Scheme.Filled.eq_self {s σ : Scheme} {f : TyVar → Ty} (h : s.Filled f σ)
    (hs : ∀ v ∈ s.ty.occurrences, v ∈ s.vars) : σ = s := by
  obtain ⟨vs, t⟩ := σ
  obtain rfl : vs = s.vars := h.vars
  obtain rfl : t = s.ty.bind f := h.ty
  rw [Ty.bind_congr fun v hv => h.fixed v (hs v hv), Ty.bind_var]

namespace VarTable

/-- One operation while the scheme is in use: a new variable, an instance, or a unification, with
success or not, of types in which no quantified variable is free. -/
inductive SchemeUse (s : Scheme) : VarTable → VarTable → Prop
  | mint (T : VarTable) : SchemeUse s T T.mint.2
  | instantiate {T T' : VarTable} : (instantiate s).Answers T T' → SchemeUse s T T'
  | unify {T T' : VarTable} (a b : Ty) (o : Origin) :
      (∀ q ∈ s.vars, q ∉ T.freeVars a ∧ q ∉ T.freeVars b) → (unify a b o).Answers T T' →
      SchemeUse s T T'

section
variable {T T' : VarTable} {Q : List TyVar} {s : Scheme} {t : Ty}

theorem avoids_iff_freeVars : T.Avoids Q t ↔ ∀ q ∈ Q, q ∉ T.freeVars t := by
  refine ⟨fun h q hq hf => h q (Ty.mem_vars.1 hf) hq, fun h w hw hq => ?_⟩
  exact h w hq (Ty.mem_vars.2 hw)

/-- One operation spares the quantified variables. -/
theorem SchemeUse.spares (hu : SchemeUse s T T') (h : T.Wf) (hq : ∀ q ∈ s.vars, T.Unbound q)
    (ha : T.SchemeAvoids s.vars s) : Spares s.vars T T' := by
  cases hu with
  | mint => exact h.toLinked.mints.spares h h.mint hq
  | instantiate ho =>
    have hi : (TypeInference.instantiate s).Ends T (fun _ => Spares s.vars T)
        (fun _ => Spares s.vars T) fun _ => True :=
      (h.instantiate_spares hq ha).mono (fun _ _ => And.left) (fun _ _ => False.elim) fun _ => id
    exact hi.of_answers ho
  | unify a b o hf ho =>
    have hfa : T.Avoids s.vars a := avoids_iff_freeVars.2 fun q hq => (hf q hq).1
    have hfb : T.Avoids s.vars b := avoids_iff_freeVars.2 fun q hq => (hf q hq).2
    exact (h.unify_spares hq hfa hfb o).of_answers ho

/-- So does any number of them. -/
theorem spares_of_uses (h : T.Wf) (hq : ∀ q ∈ s.vars, T.Unbound q) (ha : T.SchemeAvoids s.vars s)
    (hr : Relation.ReflTransGen (SchemeUse s) T T') : Spares s.vars T T' := by
  induction hr with
  | refl => exact .refl h hq
  | tail _ hu ih => exact ih.trans (hu.spares ih.wf ih.unbound (ha.mono ih))

/-- What is generalized mentions its quantified variables and others, which are unbound too. -/
theorem Wf.schemeAvoids_generalize (h : T.Wf) (ht : T.Minted t) (env : List TyVar) :
    T.SchemeAvoids (T.generalize t env).vars (T.generalize t env) := fun _ hv hn =>
  (h.avoids_unbound (h.unbound_of_mem_resolve ht hv)).2 hn

/-- A scheme whose quantified variables were spared resolves to itself, filled. -/
theorem Spares.filled (hs : Spares s.vars T T') (ha : T.SchemeAvoids s.vars s) :
    s.Filled (fun v => T'.resolve (.var v)) (T'.resolveScheme s) where
  vars := rfl
  ty := (hs.wf.resolveExcept_unbound hs.unbound s.ty).trans (resolve_eq_bind s.ty)
  fixed q hq := by rw [hs.wf.resolve_unbound (hs.unbound q hq).value, (hs.unbound q hq).root]
  apart v hv hn := hs.avoids _ (ha v hv hn)

end

variable {T : VarTable} {t : Ty}

/-- Using the scheme that a type over the variables of a reachable table is generalized to never
specialises it. Whatever was minted, instantiated and unified in the meantime, its quantified
variables are unbound roots, and it resolves to itself with types put in for variables of the
environment; to itself if the environment is empty. -/
theorem scheme_intact (hT : Reachable T) (ht : T.Minted t) (env : List TyVar) :
    ∃ s, T.checkedGeneralize t env = .ok s ∧
      ∀ T', Relation.ReflTransGen (SchemeUse s) T T' → (∀ q ∈ s.vars, T'.Unbound q) ∧
        ∃ f σ, T'.checkedResolveScheme s = .ok σ ∧ s.Filled f σ ∧ (env = [] → σ = s) := by
  have h := hT.wf
  have ha := h.schemeAvoids_generalize ht env
  refine ⟨_, checkedGeneralize_of_minted ht env, fun T' hr => ?_⟩
  have hs := spares_of_uses h (fun _ => h.unbound_of_generalize ht) ha hr
  have hm : T'.Minted (T.resolve t) := (h.minted_resolve ht).mono hs.grows.size_le
  refine ⟨hs.unbound, _, _, checkedResolveScheme_of_minted hm, hs.filled ha, ?_⟩
  rintro rfl
  exact (hs.filled ha).eq_self fun v hv => mem_vars_generalize.2 ⟨hv, List.not_mem_nil⟩

/-- An instance is unified with a function, which fails behind its first parameter, and then the
variable of the environment with a pointer to what that parameter has become. -/
theorem scheme_intact_environment :
    let t : Ty := .fn [.var 0, .var 1] (.var 0)
    let u : Ty := .fn [.var 2, .var 1] (.var 2)
    let T : VarTable := ⟨#[.root 0 none, .root 0 none]⟩
    let T₁ : VarTable := ⟨#[.root 0 none, .root 0 none, .root 0 (some .int)]⟩
    let T₂ : VarTable := ⟨#[.root 0 none, .root 0 (some (.ptr (.var 2))), .root 0 (some .int)]⟩
    T.checkedGeneralize t [1] = .ok ⟨[0], t⟩ ∧
      (instantiate ⟨[0], t⟩).outcome T = (.ok u, T.mint.2) ∧
      (unify u (.fn [.int, .var 1] .bool) .builtin).outcome T.mint.2 =
        (.error (.error (.mismatch .int .bool .builtin)), T₁) ∧
      (unify (.var 1) (.ptr (.var 2)) .builtin).outcome T₁ = (.ok (), T₂) ∧
      T₂.Unbound 0 ∧ ∃ f, Scheme.Filled ⟨[0], t⟩ f ⟨[0], .fn [.var 0, .ptr .int] (.var 0)⟩ := by
  intro t u T T₁ T₂
  have hT : Reachable T := .tail (.tail .refl (.mint _)) (.mint _)
  have hg : T.checkedGeneralize t [1] = .ok ⟨[0], t⟩ := by decide +kernel
  have hi : (instantiate ⟨[0], t⟩).outcome T = (.ok u, T.mint.2) := by decide +kernel
  have hf : (unify u (.fn [.int, .var 1] .bool) .builtin).outcome T.mint.2 =
      (.error (.error (.mismatch .int .bool .builtin)), T₁) := by decide +kernel
  have hu : (unify (.var 1) (.ptr (.var 2)) .builtin).outcome T₁ = (.ok (), T₂) := by
    decide +kernel
  have hr : Relation.ReflTransGen (SchemeUse ⟨[0], t⟩) T T₂ :=
    .tail (.tail (.tail .refl (.instantiate (Action.answers_of_ok hi)))
      (.unify _ _ _ (by decide +kernel) (Action.answers_of_error hf)))
      (.unify _ _ _ (by decide +kernel) (Action.answers_of_ok hu))
  obtain ⟨s, hg', hs⟩ := scheme_intact hT (t := t) (by decide) [1]
  cases hg.symm.trans hg'
  obtain ⟨hq, f, σ, hσ, hfill, -⟩ := hs T₂ hr
  have hσ' : T₂.checkedResolveScheme ⟨[0], t⟩ = .ok ⟨[0], .fn [.var 0, .ptr .int] (.var 0)⟩ := by
    decide +kernel
  cases hσ'.symm.trans hσ
  exact ⟨hg, hi, hf, hu, hq 0 List.mem_cons_self, f, hfill⟩

end VarTable

end TypeInference
