import TypeInference.Proofs.Unify.NormalForms
import TypeInference.Proofs.Unify.Recursion
import TypeInference.Proofs.VarTable.Readings

/-!
# Occurrence and free variables

Two readings speak of the classes in a type. The search for a class (`occurs`) compares roots on the
way down through bindings and stops at the first meeting; the free variables (`freeVars`) are read
off the resolved type. For an unbound class they agree (`Wf.occurs_iff_mem_freeVars`): it is met
exactly if its root is free in the type. Of a bound class the search knows more, for a variable of
it resolves to other variables or to none.

So an equation of an unbound variable with a type that is known to be no variable is refused exactly
if the variable is free in it, and otherwise binds its class (`Wf.unify_var`).
-/

namespace TypeInference.VarTable

open Unify

section
variable {T : VarTable} {v : TyVar} {t : Ty}

theorem Wf.occurs_iff_mem_freeVars (h : T.Wf) (hn : T.value? v = none) (t : Ty) :
    T.occurs v t = true ↔ T.root v ∈ T.freeVars t :=
  (h.occurs_iff hn t).trans Ty.mem_vars.symm

/-- An unbound class is looked for as its root, and in a type as in its leader. -/
theorem Wf.occurs_leader (h : T.Wf) (hn : T.value? v = none) (t : Ty) :
    T.occurs (T.root v) (T.leader t) = T.occurs v t := by
  have hr : T.value? (T.root v) = none := by rw [h.value?_root, hn]
  rw [Bool.eq_iff_iff, h.occurs_iff hr, h.occurs_iff hn, h.root_root, h.resolve_leader]

theorem Wf.assign_root (h : T.Wf) (v : TyVar) (t : Ty) : T.assign (T.root v) t = T.assign v t := by
  simp only [VarTable.assign, rank, h.root_root]

theorem Compressed.size_eq {T' : VarTable} (hc : Compressed T T') : T'.size = T.size := by
  induction hc with
  | refl => rfl
  | tail _ hs ih =>
    obtain ⟨w, rfl⟩ := hs
    rw [size_compress, ih]

/-- An unbound variable made equal to a type that is known to be no variable. -/
theorem Wf.unify_var (h : T.Wf) (hv : v < T.size) (hn : T.value? v = none) (ht : T.Minted t)
    (hne : ∀ w, T.leader t ≠ .var w) (o : Origin) : (unify (.var v) t o).outcome T =
      if T.occurs v t then (.error (.error (.occursCheck (T.root v) (T.resolve t) o)), T)
      else (.ok (), T.assign v (T.leader t)) := by
  have hvt : T.Minted (.var v) := fun w hw => List.mem_singleton.1 hw ▸ hv
  have hc : (T.leader (.var v)).confront (T.leader t) = .assign (T.root v) (T.leader t) :=
    Ty.confront_eq_assign.2 ⟨.inl ⟨by rw [h.leader_var, hn], rfl⟩, hne⟩
  have ho := h.occurs_leader hn t
  obtain ⟨e, T', hu, hr⟩ := exists_run ((h.unify_ends (.var v) t o).mono (fun _ _ => id)
    (fun _ _ => id) fun _ hm => hm ⟨hvt, ht⟩)
  rw [hu]
  cases hb : T.occurs v t with
  | true =>
    obtain ⟨rfl, rfl⟩ := hr.unique (.occurs [] hc (ho.trans hb))
    rw [h.resolve_leader]
    rfl
  | false =>
    obtain ⟨rfl, rfl⟩ := hr.unique
      (.assign hc (h.root_lt hv) (h.minted_leader ht) (ho.trans hb) (.done _))
    rw [h.assign_root]
    rfl

end

/-- On every table that can arise, the search for an unbound class in a type of minted variables
agrees with deep resolution. It ends, and it meets the class exactly if the root of this is among
the free variables, which are those of the resolved type. A session answers both questions so and
stays as it is, also when look-ups have shortened the ways to the roots. Therefore an equation of
the variable with a type that is known to be no variable is refused exactly if the root is free in
the type, with all of the table as it was; otherwise it binds the class. -/
theorem Reachable.occurs_iff_free {T : VarTable} (hT : Reachable T) {v : TyVar} (hv : v < T.size)
    (hn : T.value? v = none) {t : Ty} (ht : T.Minted t) :
    (T.occurs v t = true ↔ T.root v ∈ T.freeVars t) ∧
    (∀ b, Meets T v t b ↔ (b = true ↔ T.root v ∈ T.freeVars t)) ∧
    (∀ u, Resolves T [] t u → T.freeVars t = u.vars) ∧
    (∀ S : Session, Compressed T S.table → ∃ b, (b = true ↔ T.root v ∈ T.freeVars t) ∧
      S.step (.occurs v t) = .ok (.truth b, S) ∧
      S.step (.freeVars t) = .ok (.numbers (T.freeVars t), S)) ∧
    ((∀ w, T.leader t ≠ .var w) → ∀ o, (unify (.var v) t o).outcome T =
      if T.root v ∈ T.freeVars t then
        (.error (.error (.occursCheck (T.root v) (T.resolve t) o)), T)
      else (.ok (), T.assign v (T.leader t))) := by
  have h := hT.wf
  have hiff := h.occurs_iff_mem_freeVars hn t
  refine ⟨hiff, fun b => ?_, fun u hu => ?_, fun S hc => ?_, fun hne o => ?_⟩
  · rw [h.meets_iff hv ht, ← hiff, Bool.eq_iff_iff]
  · rw [(h.resolves_iff ht).1 hu]
    rfl
  · obtain ⟨h', hkept, htypes⟩ := hc.readings h
    have hv' : v < S.table.size := hc.size_eq ▸ hv
    have ht' : S.table.Minted t := fun w hw => hc.size_eq ▸ ht w hw
    have hfree : S.table.freeVars t = T.freeVars t := congrArg Ty.vars (htypes t).2
    refine ⟨S.table.occurs v t, ?_, ?_, ?_⟩
    · rw [h'.occurs_iff_mem_freeVars (by rw [(hkept v).2, hn]), hfree, (hkept v).1]
    · simp only [Session.step, checkedOccurs_of_minted hv' ht']
      rfl
    · simp only [Session.step, checkedFreeVars_of_minted ht', hfree]
      rfl
  · rw [h.unify_var hv hn ht hne]
    simp only [hiff]

/-- A unification that failed in the end bound a variable to a pointer to a class of two. Behind
this binding the class occurs in a type that mentions neither of the two; the last variable does
not. -/
theorem occurs_iff_free_after_failure :
    let T : VarTable := ⟨#[.link 1, .root 1 none, .root 0 (some (.ptr (.var 0))), .root 0 none]⟩
    let t : Ty := .fn [.var 3] (.var 2)
    T.freeVars t = [3, 1] ∧ T.occurs 0 t = true ∧ (∀ b, Meets T 0 t b ↔ b = true) ∧
      (∀ o, (unify (.var 0) t o).outcome T =
        (.error (.error (.occursCheck 1 (.fn [.var 3] (.ptr (.var 1))) o)), T)) ∧
      T.occurs 3 (.var 2) = false ∧
      ∀ o, (unify (.var 3) (.var 2) o).outcome T = (.ok (), T.assign 3 (.ptr (.var 0))) := by
  intro T t
  have h4 : Reachable ((∅ : VarTable).mint.2.mint.2.mint.2.mint.2) :=
    .tail (.tail (.tail (.tail .refl (.mint _)) (.mint _)) (.mint _)) (.mint _)
  have h01 : (unify (.var 0) (.var 1) .builtin).Answers ((∅ : VarTable).mint.2.mint.2.mint.2.mint.2)
      ⟨#[.link 1, .root 1 none, .root 0 none, .root 0 none]⟩ := ⟨rfl, nofun⟩
  have hf : (unify (.fn [.var 2] .int) (.fn [.ptr (.var 0)] .bool) .builtin).Answers
      ⟨#[.link 1, .root 1 none, .root 0 none, .root 0 none]⟩ T := ⟨rfl, nofun⟩
  have hT : Reachable T := .tail (.tail h4 (.unify _ _ _ h01)) (.unify _ _ _ hf)
  have hfree : T.freeVars t = [3, 1] := by decide
  have hother : T.freeVars (.var 2) = [1] := by decide
  have hin : T.root 0 ∈ T.freeVars t := hfree ▸ by decide
  have hout : T.root 3 ∉ T.freeVars (.var 2) := hother ▸ by decide
  obtain ⟨hoccurs, hmeets, -, -, hrefused⟩ := hT.occurs_iff_free (v := 0) (by decide) rfl (t := t)
    (by decide)
  obtain ⟨habsent, -, -, -, hbound⟩ := hT.occurs_iff_free (v := 3) (by decide) rfl (t := .var 2)
    (by decide)
  refine ⟨hfree, hoccurs.2 hin, fun b => ?_, fun o => ?_, ?_, fun o => ?_⟩
  · rw [hmeets, iff_true_right hin]
  · rw [hrefused (fun _ hw => by cases hw), if_pos hin]
    rfl
  · rw [← Bool.not_eq_true, habsent]
    exact hout
  · rw [hbound (fun _ hw => by cases hw), if_neg hout]
    rfl

end TypeInference.VarTable
