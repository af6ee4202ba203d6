import TypeInference.Proofs.Generalization.Sparing
import TypeInference.Proofs.Unify.Permanent

/-!
# Instances of schemes

`σ.Covers t`: replacing quantified variables of `σ` alone turns its type into one that is the same
as `t`. `T.Takes σ t`: `t` was once taken for an instance of `σ`, under a table that `T` grew from.
What was taken once stays an instance, whatever the table has learned since: it is covered by the
scheme as the table resolves it, as long as the quantified variables are unbound and occur nowhere
in the rest of the scheme (`Takes.covers`).
-/

namespace TypeInference

/-- Replacing quantified variables alone makes the type of the scheme the same as `t`. -/
def Scheme.Covers (σ : Scheme) (t : Ty) : Prop :=
  ∃ f : TyVar → Ty, (∀ v, v ∉ σ.vars → f v = .var v) ∧ Ty.Same t (σ.ty.bind f)

namespace VarTable

/-- The type was taken for an instance of the scheme (module doc). -/
structure Takes (T : VarTable) (σ : Scheme) (t : Ty) : Prop where
  mono : σ.vars = [] → t = σ.ty
  poly : σ.vars ≠ [] → T.Minted t ∧ ∃ (T₀ : VarTable) (f : TyVar → Ty), T₀.Wf ∧ T₀.Extends T ∧
    (∀ v, v ∉ σ.vars → f v = .var v) ∧ t = (T₀.expand σ.vars σ.ty).bind f

section
variable {T T' : VarTable} {σ : Scheme} {s t : Ty} {keep : List TyVar}

theorem Takes.mono_table (h : T.Takes σ t) (he : T.Extends T') : T'.Takes σ t where
  mono := h.mono
  poly hv := by
    obtain ⟨hm, T₀, f, h₀, he₀, hf⟩ := h.poly hv
    exact ⟨hm.mono he.size_le, T₀, f, h₀, he₀.trans he, hf⟩

theorem Takes.minted (h : T.Takes σ t) (hσ : T.Minted σ.ty) : T.Minted t := by
  by_cases hv : σ.vars = []
  · rwa [h.mono hv]
  · exact (h.poly hv).1

/-! ## Readings around quantified variables -/

/-- Expanding first under the smaller table makes no difference. -/
theorem Extends.resolve_expand (h : T.Wf) (h' : T'.Wf) (he : T.Extends T') (keep : List TyVar)
    (t : Ty) : T'.resolve (T.expand keep t) = T'.resolve t := by
  have hvar : ∀ v, T'.resolve (T.expand keep (.var v)) = T'.resolve (.var v) := fun v => by
    induction v using h.induct with
    | step v ih =>
      rw [h.expand_var]
      split
      · rfl
      · cases hv : T.value? v with
        | none => rfl
        | some u =>
          show T'.resolve (T.expand keep u) = _
          rw [h'.resolve_bound (he.value v u hv), expand_eq_bind, resolve_bind, resolve_eq_bind u]
          exact Ty.bind_congr fun w hw => ih u hv w hw
  rw [expand_eq_bind, resolve_bind, resolve_eq_bind t]
  exact Ty.bind_congr fun v _ => hvar v

/-- Keeping unbound roots as they are makes no difference. -/
theorem Wf.resolveExcept_unbound (h : T.Wf) (hq : ∀ q ∈ keep, T.Unbound q) (t : Ty) :
    T.resolveExcept keep t = T.resolve t := by
  have hvar : ∀ v, T.resolveExcept keep (.var v) = T.resolve (.var v) := fun v => by
    induction v using h.induct with
    | step v ih =>
      rw [h.resolveExcept_var, h.resolve_var]
      split
      · rename_i hv
        rw [(hq v hv).value, (hq v hv).root]
      · cases hv : T.value? v with
        | none => rfl
        | some u =>
          show T.resolveExcept keep u = T.resolve u
          rw [resolveExcept_eq_bind, resolve_eq_bind u]
          exact Ty.bind_congr fun w hw => ih u hv w hw
  rw [resolveExcept_eq_bind, resolve_eq_bind t]
  exact Ty.bind_congr fun v _ => hvar v

/-- What is left around the quantified variables when a scheme is expanded still avoids what the
scheme does. -/
theorem SchemeAvoids.of_mem_expand {Q : List TyVar} (ha : T'.SchemeAvoids Q σ) (h : T.Wf)
    (h' : T'.Wf) (he : T.Extends T') {v : TyVar} (hv : v ∈ (T.expand σ.vars σ.ty).occurrences)
    (hn : v ∉ σ.vars) : T'.Avoids Q (.var v) := by
  obtain ⟨u, hu, huv, hsub⟩ := h.of_mem_expand hv hn
  intro w hw
  rw [← he.resolve_resolve h h'] at hw
  obtain ⟨x, hx, hw⟩ := mem_resolve.1 hw
  refine ha u hu huv w ?_
  rw [← he.resolve_resolve h h']
  exact mem_resolve.2 ⟨x, hsub x hx, hw⟩

/-! ## Covering -/

/-- A type that is the same as that of the scheme as it stands. -/
theorem Wf.covers_of_same (h : T.Wf) (hq : ∀ q ∈ σ.vars, T.Unbound q)
    (hs : Ty.Same (T.resolve t) (T.resolve σ.ty)) : (T.resolveScheme σ).Covers (T.resolve t) := by
  refine ⟨.var, fun _ _ => rfl, ?_⟩
  rw [resolveScheme, Ty.bind_var, h.resolveExcept_unbound hq]
  exact hs

/-- What was taken for an instance of a scheme is one of the scheme as it is now. -/
theorem Takes.covers (ht : T.Takes σ t) (h : T.Wf) (hq : ∀ q ∈ σ.vars, T.Unbound q)
    (ha : T.SchemeAvoids σ.vars σ) : (T.resolveScheme σ).Covers (T.resolve t) := by
  by_cases hv : σ.vars = []
  · refine h.covers_of_same hq ?_
    rw [ht.mono hv]
    exact .refl _
  obtain ⟨-, T₀, f, h₀, he, hf, rfl⟩ := ht.poly hv
  refine ⟨fun v => if v ∈ σ.vars then T.resolve (f v) else .var v, fun v hv => if_neg hv, ?_⟩
  suffices heq : T.resolve ((T₀.expand σ.vars σ.ty).bind f) = (T.resolve σ.ty).bind fun v =>
      if v ∈ σ.vars then T.resolve (f v) else .var v by
    rw [resolveScheme, h.resolveExcept_unbound hq, heq]
    exact .refl _
  rw [← he.resolve_expand h₀ h σ.vars σ.ty, resolve_bind, resolve_eq_bind (T₀.expand _ _),
    Ty.bind_bind]
  refine Ty.bind_congr fun v hm => ?_
  by_cases hv : v ∈ σ.vars
  · rw [h.resolve_unbound (hq v hv).value, (hq v hv).root, Ty.bind, if_pos hv]
  · -- around the quantified variables nothing is replaced
    rw [hf v hv]
    refine ((Ty.bind_congr fun w hw => ?_).trans (Ty.bind_var _)).symm
    exact if_neg (ha.of_mem_expand h₀ h he hm hv w hw)

end

/-! ## Instantiation -/

/-- What an instantiation answers is taken for an instance. -/
theorem Wf.instantiate_takes {T : VarTable} (h : T.Wf) (σ : Scheme) :
    (instantiate σ).Ends T (fun t T' => T'.Wf ∧ T.Extends T' ∧ T'.Takes σ t)
      (fun _ _ => False) fun _ => True := by
  refine (h.instantiate_ends σ).mono (fun t T' ⟨h', hm, known, hc, hi⟩ => ?_) (fun _ _ => id)
    fun _ _ => trivial
  have he := hm.extends h.toLinked
  refine ⟨h', he, hi.mono, fun hv => ?_⟩
  refine ⟨fun x hx => ?_, T, Instantiate.replacement σ.vars known, h, he, fun v hn => if_neg hn,
    (hi.poly hv).1⟩
  obtain ⟨-, -, hx⟩ | ⟨v, u, hu, hx⟩ := hi.of_mem hv hx
  · exact hx
  · obtain hn | ⟨w, rfl, -, hw⟩ := hc.new v u hu
    · cases hn
    · exact List.mem_singleton.1 hx ▸ hw

end VarTable

end TypeInference
