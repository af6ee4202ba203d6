import TypeInference.Proofs.Unify.Reachable

/-!
# How operations change a table

Whatever an operation does to a table is a sequence of single changes (`Change`): a new variable,
the merger of two unbound classes, or the binding of an unbound class to a type that it does not
occur in. In particular no class that is merged or bound has a type already, so the checks that
merging and binding make in the table never fail (`Later.changes`).
-/

namespace TypeInference.VarTable

open Unify Instantiate

/-- A single change of a table (module doc). -/
inductive Change : VarTable → VarTable → Prop
  | mint (T : VarTable) : Change T T.mint.2
  | unite {T : VarTable} {v w : TyVar} : v < T.size → w < T.size → T.root v ≠ T.root w →
      T.value? v = none → T.value? w = none → Change T (T.unite v w)
  | assign {T : VarTable} {v : TyVar} {t : Ty} : v < T.size → T.value? v = none → T.Minted t →
      (∀ w, t ≠ .var w) → T.occurs v t = false → Change T (T.assign v t)

/-- Any number of single changes. -/
abbrev Changes : VarTable → VarTable → Prop := Relation.ReflTransGen Change

section
variable {T T' : VarTable} {st st' : VarTable × KnownParams}

/-- What a run of unification does to a table. -/
theorem changes_of_run {o : Origin} {ps : List (Ty × Ty)} {e : Option TypeError}
    (hr : Run o T ps e T') (h : T.Wf) : Changes T T' := by
  induction hr with
  | done T => exact .refl
  | parts _ _ ih => exact ih h
  | merge hc hv hw _ ih =>
    obtain ⟨ha, hb, hne⟩ := Ty.confront_eq_merge.1 hc
    obtain ⟨hrv, hvv⟩ := h.of_leader_eq_var ha
    obtain ⟨hrw, hvw⟩ := h.of_leader_eq_var hb
    have hstep := Change.unite hv hw (by rwa [hrv, hrw]) hvv hvw
    exact .head hstep (ih (unite_of_merge h hc hv hw).1)
  | assign hc hv ht ho _ ih =>
    obtain ⟨⟨-, hvv⟩, hne⟩ := unbound_of_assign h hc
    have hstep := Change.assign hv hvv ht hne ho
    exact .head hstep (ih (assign_of_assign h hc hv ht ho).1)
  | occurs _ _ _ => exact .refl
  | clash _ _ => exact .refl

/-! ## Instantiation -/

theorem meet_changes (q : List TyVar) (v : TyVar) (st : VarTable × KnownParams) :
    (meet q v).Ends st (fun _ st' => Changes st.1 st'.1) (fun _ _ => False) fun _ => True := by
  obtain ⟨T, known⟩ := st
  unfold meet
  refine Action.ends_get_bind ?_
  by_cases hq : v ∈ q
  · simp only [hq, if_true]
    split
    · exact Action.ends_pure .refl
    · exact Action.ends_set (.single (.mint T))
  · simp only [hq, if_false]
    exact Action.ends_require (fun _ _ => .refl) fun _ _ => trivial

theorem forM_meet_changes (q : List TyVar) : ∀ (vs : List TyVar) (st : VarTable × KnownParams),
    (vs.forM (meet q)).Ends st (fun _ st' => Changes st.1 st'.1) (fun _ _ => False) fun _ => True
  | [], st => .refl
  | v :: vs, st => by
    refine Action.Ends.bind (x := meet q v) (meet_changes q v st) fun _ st1 h1 => ?_
    exact (forM_meet_changes q vs st1).mono (fun _ _ h2 => h1.trans h2) (fun _ _ => id) fun _ => id

theorem instantiateWith_changes (s : Scheme) (st : VarTable × KnownParams) :
    (instantiateWith s).Ends st (fun _ st' => Changes st.1 st'.1) (fun _ _ => False)
      fun _ => True := by
  unfold instantiateWith
  split
  · exact Action.ends_pure .refl
  · refine Action.ends_get_bind
      (Action.Ends.bind (forM_meet_changes s.vars _ st) fun _ st1 h1 => ?_)
    exact Action.ends_get_bind (Action.ends_pure h1)

theorem instantiate_changes (s : Scheme) (T : VarTable) :
    (instantiate s).Ends T (fun _ T' => Changes T T') (fun _ _ => False) fun _ => True := by
  have hi := instantiateWith_changes s (T, ∅)
  have ho : (instantiate s).outcome T = (((instantiateWith s).outcome (T, ∅)).1,
    ((instantiateWith s).outcome (T, ∅)).2.1) := rfl
  unfold Action.Ends at hi ⊢
  rw [ho]
  rcases hx : (instantiateWith s).outcome (T, ∅) with ⟨(e | f) | t, st⟩ <;> rw [hx] at hi
  · exact hi
  · exact trivial
  · exact hi

/-! ## Operations -/

theorem Step.changes (h : T.Wf) (hs : Step T T') : Changes T T' := by
  cases hs with
  | mint => exact .single (.mint T)
  | unify a b o ha =>
    refine Action.Ends.of_answers (Q := Changes T) (F := fun _ => True) ?_ ha
    exact (h.unify_ends a b o).mono (fun _ _ hr => changes_of_run hr h)
      (fun _ _ hr => changes_of_run hr h) fun _ _ => trivial
  | instantiate s ha =>
    refine Action.Ends.of_answers (Q := Changes T) (F := fun _ => True) ?_ ha
    exact (instantiate_changes s T).mono (fun _ _ => id) (fun _ _ => False.elim) fun _ => id
  | instantiateWith s known known' ha =>
    refine Action.Ends.of_answers (Q := fun st => Changes T st.1) (F := fun _ => True) ?_ ha
    exact (instantiateWith_changes s (T, known)).mono (fun _ _ => id) (fun _ _ => False.elim)
      fun _ => id

/-- Any number of operations change a table by single changes. -/
theorem Later.changes (h : T.Wf) (hl : Later T T') : Changes T T' := by
  induction hl with
  | refl => exact .refl
  | tail hl hs ih => exact ih.trans (Step.changes (h.later hl).1 hs)

theorem Change.wf (h : T.Wf) (hc : Change T T') : T'.Wf := by
  cases hc with
  | mint => exact h.mint
  | unite hv hw hne hvv hvw => exact (h.unite hv hw hne hvv hvw).1
  | assign hv hvv ht hne ho =>
    refine (h.assign hv hvv ht hne fun hm => ?_).1
    rw [← h.occurs_iff hvv, ho] at hm
    cases hm

theorem Changes.wf (h : T.Wf) (hc : Changes T T') : T'.Wf := by
  induction hc with
  | refl => exact h
  | tail _ hc ih => exact Change.wf ih hc

end

end TypeInference.VarTable
