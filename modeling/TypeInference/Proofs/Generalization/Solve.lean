import TypeInference.Proofs.Generalization.Sparing
import TypeInference.Proofs.Solve

/-!
# A solve spares variables

Where the declared layouts mention no variables, solving obligations over types that avoid `Q`
spares `Q`, whether it succeeds or fails (`solve_spares`). Only two kinds of obligation touch the
table: an equality, and a field access, which makes the field's type equal to one in the layout
found.
-/

namespace TypeInference

open VarTable

/-- Every declared layout is free of variables. -/
def ScopeTree.LayoutsClosed (S : ScopeTree) : Prop :=
  ∀ x fields, (S.symbol? x).bind Solve.declaredFields? = some fields →
    ∀ f ∈ fields, f.2.occurrences = []

/-- A field found by its name is one of the fields. -/
theorem Ty.mem_of_fieldType? {name : String} {fields : List (String × Ty)} {t : Ty}
    (h : fieldType? name fields = some t) : ∃ f ∈ fields, f.2 = t := by
  obtain ⟨f, hf, rfl⟩ := Option.map_eq_some_iff.1 h
  exact ⟨f, List.mem_of_find?_eq_some hf, rfl⟩

/-- The fields of what a known type denotes avoid what the type avoids. -/
theorem Denotes.avoids {S : ScopeTree} {T : VarTable} {Q : List TyVar} {scope : ScopeId} {t : Ty}
    {fields : List (String × Ty)} (h : Denotes S scope t fields) (hS : S.LayoutsClosed)
    (ht : T.Avoids Q t) : ∀ f ∈ fields, T.Avoids Q f.2 := by
  cases h with
  | own n =>
    refine fun f hf => ht.of_subset fun v hv => ?_
    rw [Ty.occurrences, Ty.occurrencesFields_eq_flatMap, List.mem_flatMap]
    exact ⟨f, hf, hv⟩
  | @declared name x y vars n _ _ _ hy hk hσ =>
    refine fun f hf => avoids_of_closed (hS x fields ?_ f hf)
    rw [hy, Option.bind_some, declaredFields?_eq_some]
    exact ⟨hk, vars, n, hσ⟩

namespace Solve

variable {S : Setting} {T : VarTable} {Q : List TyVar}

theorem decideTrait_spares (h : T.Wf) (hQ : ∀ q ∈ Q, T.Unbound q) (hS : S.scopes.LayoutsClosed)
    {l : Ty} (hl : T.Avoids Q l) (o : Origin) {trait : Trait}
    (ht : ∀ t ∈ trait.types, T.Avoids Q t) :
    (decideTrait S o l trait).Ends T (fun _ T' => Spares Q T T') (fun _ T' => Spares Q T T')
      fun _ => True := by
  have hT : Spares Q T T := .refl h hQ
  cases trait with
  | hasField field u scope =>
    refine Action.ends_require_bind (fun r hr => ?_) fun _ _ => trivial
    split
    · exact Action.ends_pure hT
    · rename_i declared hd
      obtain ⟨fields, rfl, hf⟩ := Option.bind_eq_some_iff.1 hd
      obtain ⟨f, hm, rfl⟩ := Ty.mem_of_fieldType? hf
      have hd : T.Avoids Q f.2 := (denotes_of_fields? hr).avoids hS hl f hm
      refine Action.Ends.bind (h.unify_spares hQ hd (ht u (by simp [Trait.types])) o)
        fun _ T' hT' => Action.ends_pure hT'
  | convertibleTo u =>
    refine Action.ends_get_bind ?_
    refine Action.ends_require_bind (fun _ _ => ?_) fun _ _ => trivial
    exact Action.ends_require_bind (fun _ _ => Action.ends_pure hT) fun _ _ => trivial
  | _ => exact Action.ends_pure hT

/-- Looking at an obligation whose types avoid `Q` spares `Q`. -/
theorem discharge_spares (h : T.Wf) (hQ : ∀ q ∈ Q, T.Unbound q) (hS : S.scopes.LayoutsClosed)
    {o : Obligation} (ho : ∀ t ∈ o.constraint.types, T.Avoids Q t) :
    (discharge S o).Ends T (fun _ T' => Spares Q T T') (fun _ T' => Spares Q T T')
      fun _ => True := by
  obtain ⟨c, o⟩ := o
  cases c with
  | equal a b =>
    exact Action.Ends.bind (h.unify_spares hQ (ho a (by simp [Constraint.types]))
      (ho b (by simp [Constraint.types])) o) fun _ T' hT' => Action.ends_pure hT'
  | has t trait =>
    obtain ⟨ht, htr⟩ := List.forall_mem_cons.1 ho
    unfold discharge
    refine Action.ends_get_bind (Action.ends_require_bind (fun l hl => ?_) fun _ _ => trivial)
    obtain ⟨hl', -⟩ | ⟨⟨f, hl'⟩, -⟩ := T.checkedLeader_cases t
    · obtain rfl : T.leader t = l := Except.ok.inj (hl'.symm.trans hl)
      have hlead : T.Avoids Q (T.leader t) := h.avoids_leader.2 ht
      split
      · exact Action.ends_pure (.refl h hQ)
      · refine Action.Ends.bind (decideTrait_spares h hQ hS hlead o htr) fun b T' hT' => ?_
        split
        · exact Action.ends_pure hT'
        · exact Action.ends_get_bind (Action.ends_require_bind
            (fun _ _ => Action.ends_fail hT') fun _ _ => trivial)
    · rw [hl] at hl'
      cases hl'

/-- A pass spares `Q` and puts off none but obligations of its list. -/
theorem pass_spares : ∀ (os : List Obligation) {T : VarTable}, T.Wf → (∀ q ∈ Q, T.Unbound q) →
    S.scopes.LayoutsClosed → (∀ o ∈ os, ∀ t ∈ o.constraint.types, T.Avoids Q t) →
    (pass S os).Ends T (fun rest T' => Spares Q T T' ∧ ∀ o ∈ rest, o ∈ os)
      (fun _ T' => Spares Q T T') fun _ => True
  | [], T, h, hQ, _, _ => Action.ends_pure ⟨.refl h hQ, nofun⟩
  | o :: os, T, h, hQ, hS, hos => by
    obtain ⟨ho, hos⟩ := List.forall_mem_cons.1 hos
    unfold pass
    refine Action.Ends.bind (discharge_spares h hQ hS ho) fun v T' hT' => ?_
    have hrest : (pass S os).Ends T' (fun rest T'' => Spares Q T T'' ∧ ∀ o ∈ rest, o ∈ os)
        (fun _ T'' => Spares Q T T'') fun _ => True :=
      (pass_spares os hT'.wf hT'.unbound hS fun o ho t ht => hT'.avoids t (hos o ho t ht)).mono
        (fun _ _ hr => ⟨hT'.trans hr.1, hr.2⟩) (fun _ _ => hT'.trans) fun _ => id
    cases v with
    | discharged =>
      exact hrest.mono (fun _ _ hr => ⟨hr.1, fun o ho => List.mem_cons_of_mem _ (hr.2 o ho)⟩)
        (fun _ _ => id) fun _ => id
    | deferred =>
      refine Action.Ends.bind hrest fun rest T'' hr => Action.ends_pure ⟨hr.1, ?_⟩
      exact List.forall_mem_cons.2
        ⟨List.mem_cons_self, fun o ho => List.mem_cons_of_mem _ (hr.2 o ho)⟩

theorem stuck_spares {α : Type} {P : α → VarTable → Prop} (h : T.Wf) (hQ : ∀ q ∈ Q, T.Unbound q)
    (o : Obligation) : (stuck o : Action VarTable α).Ends T P (fun _ T' => Spares Q T T')
      fun _ => True :=
  Action.ends_get_bind <| Action.ends_require_bind
    (fun _ _ => Action.ends_fail (.refl h hQ)) fun _ _ => trivial

theorem passes_spares : ∀ (more : Nat) (pending : List Obligation) {T : VarTable}, T.Wf →
    (∀ q ∈ Q, T.Unbound q) → S.scopes.LayoutsClosed →
    (∀ o ∈ pending, ∀ t ∈ o.constraint.types, T.Avoids Q t) →
    (passes S more pending).Ends T (fun _ T' => Spares Q T T') (fun _ T' => Spares Q T T')
      fun _ => True
  | more, pending, T, h, hQ, hS, hp => by
    unfold passes
    refine Action.Ends.bind (pass_spares pending h hQ hS hp) ?_
    rintro rest T' ⟨hT', hr⟩
    split
    · exact Action.ends_pure hT'
    · rename_i o os
      have hstuck : (stuck o : Action VarTable Unit).Ends T' (fun _ T'' => Spares Q T T'')
          (fun _ T'' => Spares Q T T'') fun _ => True :=
        (stuck_spares hT'.wf hT'.unbound o).mono (fun _ _ => id) (fun _ _ => hT'.trans) fun _ => id
      split
      · exact hstuck
      · rename_i more
        split
        · exact hstuck
        · exact (passes_spares more (o :: os) hT'.wf hT'.unbound hS fun p hp' t ht =>
            hT'.avoids t (hp p (hr p hp') t ht)).mono (fun _ _ => hT'.trans) (fun _ _ => hT'.trans)
            fun _ => id

/-- Solving obligations over types that avoid `Q` spares `Q`. -/
theorem solve_spares (h : T.Wf) (hQ : ∀ q ∈ Q, T.Unbound q) (hS : S.scopes.LayoutsClosed)
    (maxPasses : Nat) (pending : List Obligation)
    (hp : ∀ o ∈ pending, ∀ t ∈ o.constraint.types, T.Avoids Q t) :
    (solve S maxPasses pending).Ends T (fun _ T' => Spares Q T T') (fun _ T' => Spares Q T T')
      fun _ => True := by
  unfold solve
  split
  · exact Action.ends_pure (.refl h hQ)
  · exact passes_spares _ pending h hQ hS hp

end Solve

end TypeInference
