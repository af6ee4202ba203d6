import TypeInference.Polymorphism
import TypeInference.Proofs.VarTable.Resolve

/-!
# Checked readings

A checked reading either answers what the reading answers, or faults; it faults only on a type that
mentions a variable that was never minted.
-/

namespace TypeInference.VarTable

section
variable (T : VarTable)

theorem requireVar_cases (v : TyVar) : (T.requireVar v = .ok () ∧ v < T.size) ∨
    (∃ f, T.requireVar v = .error f) ∧ ¬ v < T.size := by
  unfold requireVar Fault.requireIndex
  split
  · exact .inl ⟨rfl, ‹_›⟩
  · exact .inr ⟨⟨_, rfl⟩, ‹_›⟩

theorem requireVars_cons (v : TyVar) (vs : List TyVar) :
    T.requireVars (v :: vs) = (T.requireVar v >>= fun _ => T.requireVars vs) := rfl

theorem requireVars_cases (vs : List TyVar) :
    (T.requireVars vs = .ok () ∧ ∀ v ∈ vs, v < T.size) ∨
      (∃ f, T.requireVars vs = .error f) ∧ ¬ ∀ v ∈ vs, v < T.size := by
  induction vs with
  | nil => exact .inl ⟨rfl, by simp⟩
  | cons v vs ih =>
    rw [requireVars_cons]
    obtain ⟨hv, hlt⟩ | ⟨⟨f, hv⟩, hlt⟩ := T.requireVar_cases v
    · rw [hv]
      obtain ⟨h, hvs⟩ | ⟨⟨f, h⟩, hvs⟩ := ih
      · exact .inl ⟨h, List.forall_mem_cons.2 ⟨hlt, hvs⟩⟩
      · exact .inr ⟨⟨f, h⟩, fun hm => hvs (List.forall_mem_cons.1 hm).2⟩
    · rw [hv]
      exact .inr ⟨⟨f, rfl⟩, fun hm => hlt (List.forall_mem_cons.1 hm).1⟩

theorem checkedLeader_cases (t : Ty) :
    (T.checkedLeader t = .ok (T.leader t) ∧ ∀ v, t = .var v → v < T.size) ∨
      (∃ f, T.checkedLeader t = .error f) ∧ ¬ T.Minted t := by
  cases t with
  | var v =>
    obtain ⟨hv, hlt⟩ | ⟨⟨f, hv⟩, hlt⟩ := T.requireVar_cases v
    · exact .inl ⟨by simp only [checkedLeader, hv]; rfl, fun w hw => by cases hw; exact hlt⟩
    · exact .inr ⟨⟨f, by simp only [checkedLeader, hv]; rfl⟩,
        fun hm => hlt (hm v (by simp [Ty.occurrences]))⟩
  | _ => exact .inl ⟨rfl, fun w hw => by cases hw⟩

theorem checkedResolve_cases (t : Ty) : (T.checkedResolve t = .ok (T.resolve t) ∧ T.Minted t) ∨
    (∃ f, T.checkedResolve t = .error f) ∧ ¬ T.Minted t := by
  obtain ⟨h, hm⟩ | ⟨⟨f, h⟩, hm⟩ := T.requireVars_cases t.occurrences
  · exact .inl ⟨by simp only [checkedResolve, h]; rfl, hm⟩
  · exact .inr ⟨⟨f, by simp only [checkedResolve, h]; rfl⟩, hm⟩

variable {T} in
theorem checkedResolve_eq_ok {t u : Ty} (h : T.checkedResolve t = .ok u) :
    u = T.resolve t ∧ T.Minted t := by
  obtain ⟨hr, hm⟩ | ⟨⟨f, hf⟩, -⟩ := T.checkedResolve_cases t
  · exact ⟨Except.ok.inj (h.symm.trans hr), hm⟩
  · rw [hf] at h
    cases h

variable {T} in
theorem checkedResolve_of_minted {t : Ty} (h : T.Minted t) :
    T.checkedResolve t = .ok (T.resolve t) :=
  ((T.checkedResolve_cases t).resolve_right fun hf => hf.2 h).1

variable {T} in
theorem checkedResolveScheme_of_minted {σ : Scheme} (h : T.Minted σ.ty) :
    T.checkedResolveScheme σ = .ok (T.resolveScheme σ) := by
  obtain ⟨hv, -⟩ | ⟨-, hm⟩ := T.requireVars_cases (σ.ty.occurrences.filter fun v => v ∉ σ.vars)
  · simp only [checkedResolveScheme, hv]
    rfl
  · exact absurd (fun v hv => h v (List.mem_filter.1 hv).1) hm

theorem checkedOccursAmong_cases {v : TyVar} (hv : v < T.size) (ws : List TyVar) :
    (∃ b, T.checkedOccursAmong v ws = .ok b ∧ b = ws.any (T.reachesVar v T.size) ∧
        (b = false → ∀ w ∈ ws, w < T.size)) ∨
      (∃ f, T.checkedOccursAmong v ws = .error f) ∧ ¬ ∀ w ∈ ws, w < T.size := by
  induction ws with
  | nil => exact .inl ⟨false, rfl, rfl, fun _ => nofun⟩
  | cons w ws ih =>
    simp only [checkedOccursAmong, requireVar_eq_ok.2 hv]
    obtain ⟨hw, hlt⟩ | ⟨⟨f, hw⟩, hlt⟩ := T.requireVar_cases w
    · rw [hw]
      cases hr : T.reachesVar v T.size w with
      | true =>
        exact .inl ⟨true, by simp [bind, Except.bind, pure, Except.pure], by simp [hr], nofun⟩
      | false =>
        obtain ⟨b, h, hb, hws⟩ | ⟨⟨f, h⟩, hws⟩ := ih
        · refine .inl ⟨b, by simpa [bind, Except.bind] using h, by simpa [hr] using hb, fun h => ?_⟩
          exact List.forall_mem_cons.2 ⟨hlt, hws h⟩
        · exact .inr ⟨⟨f, by simpa [bind, Except.bind] using h⟩,
            fun hm => hws (List.forall_mem_cons.1 hm).2⟩
    · rw [hw]
      exact .inr ⟨⟨f, rfl⟩, fun hm => hlt (List.forall_mem_cons.1 hm).1⟩

theorem checkedOccurs_cases {v : TyVar} (hv : v < T.size) (t : Ty) :
    (∃ b, T.checkedOccurs v t = .ok b ∧ b = T.occurs v t ∧ (b = false → T.Minted t)) ∨
      (∃ f, T.checkedOccurs v t = .error f) ∧ ¬ T.Minted t :=
  T.checkedOccursAmong_cases hv t.occurrences

variable {T} in
theorem checkedOccurs_of_minted {v : TyVar} (hv : v < T.size) {t : Ty} (h : T.Minted t) :
    T.checkedOccurs v t = .ok (T.occurs v t) := by
  obtain ⟨b, hb, rfl, -⟩ | ⟨-, hm⟩ := T.checkedOccurs_cases hv t
  · exact hb
  · exact absurd h hm

variable {T} in
theorem checkedFreeVars_of_minted {t : Ty} (h : T.Minted t) :
    T.checkedFreeVars t = .ok (T.freeVars t) := by
  obtain ⟨hv, -⟩ | ⟨-, hm⟩ := T.requireVars_cases t.occurrences
  · simp only [checkedFreeVars, hv]
    rfl
  · exact absurd h hm

end

end TypeInference.VarTable
