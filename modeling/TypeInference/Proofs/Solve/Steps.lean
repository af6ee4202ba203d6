import TypeInference.Proofs.Check.Rules
import TypeInference.Proofs.Solve
import TypeInference.Proofs.Unify.Reachable

/-!
# Solving by operations

A solve does nothing to the table but unify, and its run ends: with success, with a type error, or
with a fault. It faults only if an obligation speaks of a variable that was never minted or of a
scope that the tree does not have (`Obligation.Fits`), or if a declared layout does (`SlotsMinted`).
`solve_steps` says so of a list of obligations; each lemma has the form of the function it is about.
-/

namespace TypeInference

open VarTable

/-- Every slot holds a scheme over minted variables. -/
def ScopeTree.SlotsMinted (S : ScopeTree) (T : VarTable) : Prop :=
  ∀ x σ, S.scheme? x = some σ → T.Minted σ.ty ∧ ∀ v ∈ σ.vars, v < T.size

theorem ScopeTree.SlotsMinted.mono {S : ScopeTree} {T T' : VarTable} (h : S.SlotsMinted T)
    (hs : T.size ≤ T'.size) : S.SlotsMinted T' := fun x σ hσ =>
  have ⟨hm, hv⟩ := h x σ hσ
  ⟨hm.mono hs, fun v hv' => Nat.lt_of_lt_of_le (hv v hv') hs⟩

/-- The obligation speaks of minted variables, and of a scope of the tree if it speaks of one. -/
structure Obligation.Fits (S : ScopeTree) (T : VarTable) (o : Obligation) : Prop where
  minted : ∀ t ∈ o.constraint.types, T.Minted t
  scope : ∀ s ∈ o.constraint.scope?, s < S.scopes.size

theorem Obligation.Fits.mono {S : ScopeTree} {T T' : VarTable} {o : Obligation} (h : o.Fits S T)
    (hs : T.size ≤ T'.size) : o.Fits S T' :=
  ⟨fun t ht => (h.minted t ht).mono hs, h.scope⟩

namespace Solve

variable {S : Setting} {T : VarTable} {F : Prop}

/-- The action takes the table on by operations, and it faults only if `F`. -/
abbrev Steps {α : Type} (F : Prop) (x : Action VarTable α) (T : VarTable) : Prop :=
  x.Ends T (fun _ T' => Later T T') (fun _ T' => Later T T') fun _ => F

theorem Steps.bind {α β : Type} {x : Action VarTable α} {f : α → Action VarTable β}
    (hx : Steps F x T) (hf : ∀ a T', Later T T' → Steps F (f a) T') : Steps F (x >>= f) T := by
  refine Action.Ends.bind hx fun a T' h => ?_
  exact (hf a T' h).mono (fun _ _ h' => h.trans h') (fun _ _ h' => h.trans h') fun _ => id

/-- Unification is an operation. -/
theorem unify_steps (h : T.Wf) {a b : Ty} (hm : ¬ F → T.Minted a ∧ T.Minted b) (o : Origin) :
    Steps F (unify a b o) T := by
  have hu := h.unify_ends a b o
  unfold Steps
  unfold Action.Ends at hu ⊢
  rcases hx : (unify a b o).outcome T with ⟨(e | f) | ⟨⟩, T'⟩
  · exact .single (.unify a b o (Action.answers_of_error hx))
  · rw [hx] at hu
    exact Classical.byContradiction fun hF => hu (hm hF)
  · exact .single (.unify a b o (Action.answers_of_ok hx))

/-- Instantiation is an operation. -/
theorem instantiate_steps (h : T.Wf) {σ : Scheme} (hm : ¬ F → T.SchemeMinted σ) :
    Steps F (instantiate σ) T := by
  have hi := h.instantiate_ends σ
  unfold Steps
  unfold Action.Ends at hi ⊢
  rcases hx : (instantiate σ).outcome T with ⟨(e | f) | t, T'⟩
  · rw [hx] at hi
    exact hi.elim
  · rw [hx] at hi
    exact Classical.byContradiction fun hF => hi (hm hF)
  · exact .single (.instantiate σ (Action.answers_of_ok hx))

/-- A checked resolution leaves the table alone. -/
theorem resolve_steps {α : Type} {t : Ty} (hm : ¬ F → T.Minted t) {f : Ty → Action VarTable α}
    (hf : Steps F (f (T.resolve t)) T) :
    Steps F (Action.require (T.checkedResolve t) >>= f) T := by
  obtain ⟨ht, -⟩ | ⟨⟨g, ht⟩, hn⟩ := T.checkedResolve_cases t
  · rw [ht]
    exact hf
  · rw [ht]
    exact Classical.byContradiction fun hF => hn (hm hF)

/-! ## Layouts -/

theorem fields?_eq_ok (S : Setting) {scope : ScopeId} (hs : scope < S.scopes.scopes.size) (t : Ty) :
    ∃ r, fields? S scope t = .ok r := by
  cases t with
  | con name =>
    obtain ⟨c, hc⟩ := ScopeTree.exists_scope? hs
    have hr : S.scopes.requireScope scope = .ok c := by rw [ScopeTree.requireScope, hc]
    simp only [fields?, hr]
    split <;> exact ⟨_, rfl⟩
  | _ => exact ⟨_, rfl⟩

/-- The fields of a minted type are minted, also those declared for its name. -/
theorem minted_of_fields? (hS : S.scopes.SlotsMinted T) {scope : ScopeId} {t : Ty}
    (ht : T.Minted t) {fields : List (String × Ty)}
    (hf : fields? S scope t = .ok (some fields)) {name : String} {u : Ty}
    (hu : Ty.fieldType? name fields = some u) : T.Minted u := by
  obtain ⟨f, hfind, rfl⟩ := Option.map_eq_some_iff.1 hu
  have hmem : f ∈ fields := List.mem_of_find?_eq_some hfind
  suffices hall : ∀ n, T.Minted (.struct n fields) by
    intro v hv
    refine hall none v ?_
    rw [Ty.occurrences, Ty.occurrencesFields_eq_flatMap]
    exact List.mem_flatMap.2 ⟨f, hmem, hv⟩
  cases denotes_of_fields? hf with
  | own _ _ => exact fun _ => ht
  | @declared _ x y vars n _ _ _ hy _ hσ =>
    have hslot : S.scopes.scheme? x = some ⟨vars, .struct n fields⟩ := by
      rw [ScopeTree.scheme?, hy, Option.bind_some, hσ]
    exact fun _ => (hS x _ hslot).1

/-! ## Obligations -/

theorem decideTrait_steps (h : T.Wf) (hS : ¬ F → S.scopes.SlotsMinted T) {t : Ty} {trait : Trait}
    {o : Origin} (ho : ¬ F → Obligation.Fits S.scopes T ⟨.has t trait, o⟩) :
    Steps F (decideTrait S o t trait) T := by
  have ht : ¬ F → T.Minted t := fun hF => (ho hF).minted t (by simp [Constraint.types])
  cases trait with
  | eq => exact Action.ends_pure .refl
  | ord => exact Action.ends_pure .refl
  | callable => exact Action.ends_pure .refl
  | hasField field u scope =>
    have hu : ¬ F → T.Minted u := fun hF =>
      (ho hF).minted u (by simp [Constraint.types, Trait.types])
    refine Action.ends_require_bind (fun r hr => ?_) fun g hg => ?_
    · split
      · exact Action.ends_pure .refl
      · rename_i declared hd
        obtain ⟨fields, rfl, hf⟩ := Option.bind_eq_some_iff.1 hd
        refine Steps.bind (unify_steps h (fun hF => ⟨?_, hu hF⟩) o) fun _ T' _ => ?_
        · exact minted_of_fields? (hS hF) (ht hF) hr hf
        · exact Action.ends_pure .refl
    · refine Classical.byContradiction fun hF => ?_
      obtain ⟨r, hr⟩ := fields?_eq_ok S ((ho hF).scope scope (by simp [Constraint.scope?])) t
      rw [hr] at hg
      cases hg
  | convertibleTo u =>
    have hu : ¬ F → T.Minted u := fun hF =>
      (ho hF).minted u (by simp [Constraint.types, Trait.types])
    refine Action.ends_get_bind ?_
    exact resolve_steps ht (resolve_steps hu (Action.ends_pure .refl))

theorem fits_leader (h : T.Wf) {t : Ty} {trait : Trait} {o : Origin}
    (ho : Obligation.Fits S.scopes T ⟨.has t trait, o⟩) :
    Obligation.Fits S.scopes T ⟨.has (T.leader t) trait, o⟩ := by
  obtain ⟨hm, hs⟩ := ho
  refine ⟨?_, ?_⟩
  · rw [Constraint.types, List.forall_mem_cons] at hm ⊢
    exact ⟨h.minted_leader hm.1, hm.2⟩
  · cases trait <;> exact hs

theorem discharge_steps (h : T.Wf) (hS : ¬ F → S.scopes.SlotsMinted T) (o : Obligation)
    (ho : ¬ F → o.Fits S.scopes T) : Steps F (discharge S o) T := by
  obtain ⟨c, o⟩ := o
  cases c with
  | equal a b =>
    refine Steps.bind (unify_steps h (fun hF => ?_) o) fun _ _ _ => Action.ends_pure .refl
    have hm := (ho hF).minted
    exact ⟨hm a (by simp [Constraint.types]), hm b (by simp [Constraint.types])⟩
  | has t trait =>
    unfold discharge
    refine Action.ends_get_bind ?_
    obtain ⟨hl, -⟩ | ⟨⟨g, hl⟩, hn⟩ := T.checkedLeader_cases t
    · have ho' : ¬ F → Obligation.Fits S.scopes T ⟨.has (T.leader t) trait, o⟩ := fun hF =>
        fits_leader h (ho hF)
      refine Action.ends_require_bind (fun l hl' => ?_) fun _ hg => by
        rw [hl] at hg
        cases hg
      obtain rfl : T.leader t = l := Except.ok.inj (hl.symm.trans hl')
      split
      · exact Action.ends_pure .refl
      · refine Steps.bind (decideTrait_steps h hS ho') fun b T' hl' => ?_
        split
        · exact Action.ends_pure .refl
        · refine Action.ends_get_bind (resolve_steps (fun hF => ?_) (Action.ends_fail .refl))
          have hm := (ho' hF).minted (T.leader t) (by simp [Constraint.types])
          exact hm.mono (h.later hl').2.size_le
    · rw [hl]
      refine Classical.byContradiction fun hF => hn ?_
      exact (ho hF).minted t (by simp [Constraint.types])

/-! ## Passes -/

/-- What the next pass gets is what this one put off. -/
theorem pass_steps : ∀ (os : List Obligation) {T : VarTable}, T.Wf →
    (¬ F → S.scopes.SlotsMinted T) → (¬ F → ∀ o ∈ os, o.Fits S.scopes T) → (pass S os).Ends T
      (fun rest T' => Later T T' ∧ ∀ o ∈ rest, o ∈ os) (fun _ T' => Later T T') fun _ => F
  | [], T, _, _, _ => Action.ends_pure ⟨.refl, fun _ ho => ho⟩
  | o :: os, T, h, hS, ho => by
    unfold pass
    refine Action.Ends.bind (discharge_steps h hS o fun hF => ho hF o List.mem_cons_self)
      fun v T1 h1 => ?_
    obtain ⟨hw, he⟩ := h.later h1
    have hrest := pass_steps os hw (fun hF => (hS hF).mono he.size_le) fun hF p hp =>
      (ho hF p (List.mem_cons_of_mem o hp)).mono he.size_le
    cases v with
    | discharged =>
      refine hrest.mono (fun rest T2 h2 => ?_) (fun _ _ => h1.trans) fun _ => id
      exact ⟨h1.trans h2.1, fun p hp => List.mem_cons_of_mem o (h2.2 p hp)⟩
    | deferred =>
      refine Action.Ends.bind (Q := fun rest T2 => Later T1 T2 ∧ ∀ p ∈ rest, p ∈ os)
        (hrest.mono (fun _ _ => id) (fun _ _ => h1.trans) fun _ => id) fun rest T2 h2 => ?_
      obtain ⟨h2, hr⟩ := h2
      refine Action.ends_pure ⟨h1.trans h2, fun p hp => ?_⟩
      rcases List.mem_cons.1 hp with rfl | hp
      · exact List.mem_cons_self
      · exact List.mem_cons_of_mem o (hr p hp)

/-- The types of a constraint can be resolved if they are minted. -/
theorem mapTypesM_eq_ok {c : Constraint} (hm : ∀ t ∈ c.types, T.Minted t) :
    ∃ c', c.mapTypesM T.checkedResolve = .ok c' := by
  have hr : ∀ t ∈ c.types, T.checkedResolve t = .ok (T.resolve t) := fun t ht =>
    checkedResolve_of_minted (hm t ht)
  cases c with
  | equal a b =>
    rw [Constraint.mapTypesM, hr a (by simp [Constraint.types]), hr b (by simp [Constraint.types])]
    exact ⟨_, rfl⟩
  | has t trait =>
    have ht := hr t (by simp [Constraint.types])
    cases trait with
    | hasField field u scope =>
      have hu := hr u (by simp [Constraint.types, Trait.types])
      simp only [Constraint.mapTypesM, ht, hu]
      exact ⟨_, rfl⟩
    | convertibleTo u =>
      have hu := hr u (by simp [Constraint.types, Trait.types])
      simp only [Constraint.mapTypesM, ht, hu]
      exact ⟨_, rfl⟩
    | eq | ord | callable =>
      simp only [Constraint.mapTypesM, ht]
      exact ⟨_, rfl⟩

theorem stuck_steps {α : Type} (o : Obligation) (ho : ¬ F → o.Fits S.scopes T) :
    Steps F (stuck o : Action VarTable α) T := by
  refine Action.ends_get_bind (Action.ends_require_bind (fun _ _ => ?_) fun g hg => ?_)
  · exact Action.ends_fail .refl
  · refine Classical.byContradiction fun hF => ?_
    obtain ⟨c, hc⟩ := mapTypesM_eq_ok (ho hF).minted
    rw [hc] at hg
    cases hg

theorem passes_steps : ∀ (more : Nat) (pending : List Obligation) {T : VarTable}, T.Wf →
    (¬ F → S.scopes.SlotsMinted T) → (¬ F → ∀ o ∈ pending, o.Fits S.scopes T) →
    Steps F (passes S more pending) T
  | more, pending, T, h, hS, ho => by
    unfold passes
    refine Action.Ends.bind (pass_steps pending h hS ho) fun rest T1 hpass => ?_
    obtain ⟨h1, hr⟩ := hpass
    obtain ⟨hw, he⟩ := h.later h1
    have ho1 : ¬ F → ∀ o ∈ rest, o.Fits S.scopes T1 := fun hF o hm =>
      (ho hF o (hr o hm)).mono he.size_le
    have after : ∀ {x : Action VarTable Unit}, Steps F x T1 →
        x.Ends T1 (fun _ T' => Later T T') (fun _ T' => Later T T') fun _ => F := fun hx =>
      hx.mono (fun _ _ => h1.trans) (fun _ _ => h1.trans) fun _ => id
    split
    · exact Action.ends_pure h1
    · rename_i o os
      have hfirst : ¬ F → o.Fits S.scopes T1 := fun hF => ho1 hF o List.mem_cons_self
      split
      · exact after (stuck_steps o hfirst)
      · rename_i more
        split
        · exact after (stuck_steps o hfirst)
        · exact after (passes_steps more (o :: os) hw (fun hF => (hS hF).mono he.size_le) ho1)

/-- A solve takes the table on by unifications; it faults only if its obligations or the slots it
reads do not fit. -/
theorem solve_steps (h : T.Wf) (hS : ¬ F → S.scopes.SlotsMinted T) (maxPasses : Nat)
    {pending : List Obligation} (ho : ¬ F → ∀ o ∈ pending, o.Fits S.scopes T) :
    Steps F (solve S maxPasses pending) T := by
  unfold solve
  split
  · exact Action.ends_pure .refl
  · exact passes_steps _ pending h hS ho

end Solve

end TypeInference
