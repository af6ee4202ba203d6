import TypeInference.Proofs.Ty.Seam
import TypeInference.Proofs.Unify.Permanent

/-!
# Unification of closed types

On types without variables unification decides a relation and changes nothing: it leaves every table
as it is (`Run.closed`) and succeeds exactly if the two types are the same (`Wf.unifies_iff`). The
relation is reflexive and symmetric. It is transitive except across a seam (`unifies_seams`), and so
on declared layouts (`unifies_trans_of_declared`).
-/

namespace TypeInference.Ty

/-- A type without variables. -/
def Closed (t : Ty) : Prop := t.occurrences = []

instance (t : Ty) : Decidable t.Closed := inferInstanceAs (Decidable (t.occurrences = []))

theorem Closed.ne_var {t : Ty} (h : t.Closed) (v : TyVar) : t ≠ .var v := by
  rintro rfl
  cases h

theorem Closed.of_mem_parts {s t : Ty} (h : t.Closed) (hs : s ∈ t.parts) : s.Closed := by
  refine List.eq_nil_iff_forall_not_mem.2 fun v hv => ?_
  have hv := occurrences_of_mem_parts hs hv
  rw [h] at hv
  cases hv

theorem Closed.bind {t : Ty} (h : t.Closed) (f : TyVar → Ty) : t.bind f = t := by
  have hf : ∀ v ∈ t.occurrences, f v = .var v := by simp [show t.occurrences = [] from h]
  rw [bind_congr hf, bind_var]

end TypeInference.Ty

namespace TypeInference.Unify

open VarTable Ty

variable {o : Origin} {T T' : VarTable} {ps : List (Ty × Ty)} {e : Option TypeError}

theorem leader_closed {t : Ty} (h : t.Closed) : T.leader t = t := by
  cases t with
  | var v => exact absurd rfl (h.ne_var v)
  | _ => rfl

/-- A run over closed types leaves the table as it is. -/
theorem Run.closed (hr : Run o T ps e T') (hp : ∀ p ∈ ps, p.1.Closed ∧ p.2.Closed) : T' = T := by
  induction hr with
  | done T => rfl
  | parts hc _ ih =>
    obtain ⟨⟨ha, hb⟩, hps⟩ := List.forall_mem_cons.1 hp
    rw [leader_closed ha, leader_closed hb] at hc
    refine ih (List.forall_mem_append.2 ⟨fun q hq => ?_, hps⟩)
    obtain ⟨h1, h2⟩ := (confront_eq_parts.1 hc).mem_parts hq
    exact ⟨ha.of_mem_parts h1, hb.of_mem_parts h2⟩
  | merge hc =>
    obtain ⟨ha, -⟩ := (List.forall_mem_cons.1 hp).1
    rw [leader_closed ha] at hc
    exact absurd (confront_eq_merge.1 hc).1 (ha.ne_var _)
  | assign hc =>
    obtain ⟨ha, hb⟩ := (List.forall_mem_cons.1 hp).1
    rw [leader_closed ha, leader_closed hb] at hc
    rcases (confront_eq_assign.1 hc).1 with ⟨hv, -⟩ | ⟨-, hv⟩
    · exact absurd hv (ha.ne_var _)
    · exact absurd hv (hb.ne_var _)
  | occurs | clash => rfl

end TypeInference.Unify

namespace TypeInference.VarTable

open Unify Ty

variable {T : VarTable} {t u w : Ty} {o : Origin}

/-- In the table the two types unify. -/
def Unifies (T : VarTable) (o : Origin) (t u : Ty) : Prop := ((unify t u o).outcome T).1 = .ok ()

theorem minted_closed (h : t.Closed) : T.Minted t := by
  simp [Minted, show t.occurrences = [] from h]

theorem resolve_closed (h : t.Closed) : T.resolve t = t := by rw [resolve_eq_bind, h.bind]

/-- Closed types are made equal or refused, and the table stays as it is. -/
theorem Wf.unify_closed (h : T.Wf) (ht : t.Closed) (hu : u.Closed) (o : Origin) :
    Same t u ∧ (unify t u o).outcome T = (.ok (), T) ∨
      ¬ Same t u ∧ ∃ e, (unify t u o).outcome T = (.error (.error e), T) := by
  by_cases hs : Same t u
  · refine .inl ⟨hs, h.unify_of_same (minted_closed ht) (minted_closed hu) ?_ o⟩
    rwa [resolve_closed ht, resolve_closed hu]
  · obtain ⟨T', -, hr⟩ | ⟨e, T', hx, hr⟩ := h.unify_run (minted_closed ht) (minted_closed hu) o
    · have hs' := hr.same h rfl (t, u) (List.mem_singleton.2 rfl)
      rw [resolve_closed ht, resolve_closed hu] at hs'
      exact absurd hs' hs
    · obtain rfl : T' = T := hr.closed (List.forall_mem_singleton.2 ⟨ht, hu⟩)
      exact .inr ⟨hs, e, hx⟩

theorem Wf.unifies_iff (h : T.Wf) (ht : t.Closed) (hu : u.Closed) :
    T.Unifies o t u ↔ Same t u := by
  unfold Unifies
  obtain ⟨hs, hx⟩ | ⟨hs, e, hx⟩ := h.unify_closed ht hu o
  · simp [hx, hs]
  · simp [hx, hs]

/-- On closed types unification leaves a reachable table as it is, and it decides the same in all
reachable tables. What it decides is reflexive and symmetric; and two types that unify with a third
unify with each other exactly if no seam runs between the three. -/
theorem unifies_seams (hT : Reachable T) (ht : t.Closed) (hu : u.Closed) (hw : w.Closed)
    (o : Origin) :
    ((unify t u o).outcome T).2 = T ∧
      (∀ U, Reachable U → ∀ o', U.Unifies o' t u ↔ T.Unifies o t u) ∧
      T.Unifies o t t ∧ (T.Unifies o t u ↔ T.Unifies o u t) ∧
      (T.Unifies o t u → T.Unifies o u w → (T.Unifies o t w ↔ ¬ Seam t u w)) := by
  have h := hT.wf
  refine ⟨?_, fun U hU o' => ?_, ?_⟩
  · obtain ⟨-, hx⟩ | ⟨-, e, hx⟩ := h.unify_closed ht hu o <;> rw [hx]
  · rw [h.unifies_iff ht hu, hU.wf.unifies_iff ht hu]
  · simp only [h.unifies_iff, ht, hu, hw]
    exact ⟨.refl t, ⟨.symm, .symm⟩, Same.trans_iff⟩

/-- A layout without a name unifies with two that carry different names and do not unify. -/
theorem unifies_not_transitive :
    let fs : List (String × Ty) := [("x", .int)]
    (∅ : VarTable).Unifies .builtin (.struct (some "p") fs) (.struct none fs) ∧
      (∅ : VarTable).Unifies .builtin (.struct none fs) (.struct (some "q") fs) ∧
      (unify (.struct (some "p") fs) (.struct (some "q") fs) .builtin).outcome ∅ =
        (.error (.error (.mismatch (.struct (some "p") fs) (.struct (some "q") fs) .builtin)), ∅) :=
  ⟨rfl, rfl, rfl⟩

/-- A function on a name, one on its layout and one from the layout to the layout. -/
theorem unifies_seams_declared :
    let p : Ty := .struct (some "p") [("x", .int)]
    let t : Ty := .fn [.con "p"] (.con "p")
    let u : Ty := .fn [p] (.con "p")
    let w : Ty := .fn [p] p
    (∅ : VarTable).Unifies .builtin t u ∧ (∅ : VarTable).Unifies .builtin u w ∧ ¬ Seam t u w ∧
      (∅ : VarTable).Unifies .builtin t w := by
  intro p t u w
  obtain ⟨-, -, -, -, htw⟩ := unifies_seams (T := ∅) .refl (t := t) (u := u) (w := w) (by decide)
    (by decide) (by decide) .builtin
  have hp : Declared (fun _ => [("x", .int)]) p := .struct rfl (by simpa using .con "int")
  have hn : Declared (fun _ => [("x", Ty.int)]) (.con "p") := .con "p"
  have hs : ¬ Seam t u w := Declared.not_seam (.fn (by simpa using hn) hn)
    (.fn (by simpa using hp) hn) (.fn (by simpa using hp) hp)
  exact ⟨rfl, rfl, hs, (htw rfl rfl).2 hs⟩

/-- Where each name has one layout and each layout a name, unification is an equivalence. -/
theorem unifies_trans_of_declared {D : String → List (String × Ty)} (hT : Reachable T)
    (ht : t.Closed) (hu : u.Closed) (hw : w.Closed) (dt : Declared D t) (du : Declared D u)
    (dw : Declared D w) (htu : T.Unifies o t u) (huw : T.Unifies o u w) : T.Unifies o t w := by
  have h := hT.wf
  rw [h.unifies_iff ht hu] at htu
  rw [h.unifies_iff hu hw] at huw
  exact (h.unifies_iff ht hw).2 (htu.trans_of_not_seam huw (dt.not_seam du dw))

end TypeInference.VarTable
