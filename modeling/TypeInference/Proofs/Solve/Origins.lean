import TypeInference.Proofs.Action
import TypeInference.Solve

/-!
# The origin of an error

An error says what to point at by the origin it carries. Whatever the table, an error of `unify`
carries the origin that `unify` was given (`unify_errs`), and an error of a solve the origin of one
of the obligations of its list (`solve_errs`), in whichever pass it comes up.
-/

namespace TypeInference

/-- The error is about two types that a constraint of the origin `o` makes equal. -/
inductive TypeError.OfEquality (o : Origin) : TypeError → Prop
  | mismatch (expected found : Ty) : OfEquality o (.mismatch expected found o)
  | arity (expected found : Nat) : OfEquality o (.arityMismatch expected found o)
  | occurs (v : TyVar) (t : Ty) : OfEquality o (.occursCheck v t o)

namespace TypeError.OfEquality

variable {o : Origin} {e : TypeError}

theorem origin? (h : OfEquality o e) : e.origin? = some o := by
  cases h <;> rfl

theorem ne_unresolved (h : OfEquality o e) (text : String) (o' : Origin) :
    e ≠ .unresolvedConstraint text o' := by
  cases h <;> nofun

end TypeError.OfEquality

/-! ## Unification -/

namespace Unify

variable {T : VarTable} {o : Origin}

/-- Whatever the action does, an error that it ends with is about an equality of the origin `o`. -/
abbrev Errs (o : Origin) (x : Action VarTable Unit) (T : VarTable) : Prop :=
  x.Ends T (fun _ _ => True) (fun e _ => e.OfEquality o) fun _ => True

theorem mismatch_errs (a b : Ty) : Errs o (mismatch o a b) T :=
  Action.ends_get_bind <| Action.ends_require_bind (fun _ _ => Action.ends_require_bind
    (fun _ _ => Action.ends_fail (.mismatch _ _)) fun _ _ => trivial) fun _ _ => trivial

theorem assign_errs (v : TyVar) (t : Ty) : Errs o (assign o v t) T := by
  refine Action.ends_get_bind (Action.ends_require_bind (fun occurs _ => ?_) fun _ _ => trivial)
  split
  · exact Action.ends_require_bind (fun _ _ => Action.ends_fail (.occurs _ _)) fun _ _ => trivial
  · exact Action.ends_set trivial

theorem forM_errs {depth : Nat} (hrec : ∀ a b T, Errs o (atDepth o depth a b) T) :
    ∀ (qs : List (Ty × Ty)) (T : VarTable),
      Errs o (qs.forM fun (s, t) => atDepth o depth s t) T
  | [], _ => trivial
  | (s, t) :: qs, T =>
    Action.Ends.bind (hrec s t T) fun _ T' _ => forM_errs hrec qs T'

theorem atDepth_errs : ∀ (depth : Nat) (a b : Ty) (T : VarTable), Errs o (atDepth o depth a b) T
  | 0, _, _, _ => trivial
  | depth + 1, a, b, T => by
    refine Action.ends_get_bind (Action.ends_require_bind (fun a _ =>
      Action.ends_require_bind (fun b _ => ?_) fun _ _ => trivial) fun _ _ => trivial)
    split
    · exact forM_errs (atDepth_errs depth) _ T
    · exact Action.ends_set trivial
    · exact assign_errs _ _
    · exact mismatch_errs a b
    · exact Action.ends_fail (.mismatch a b)
    · exact Action.ends_fail (.arity _ _)

end Unify

theorem unify_errs (a b : Ty) (o : Origin) (T : VarTable) : Unify.Errs o (unify a b o) T :=
  Action.ends_get_bind (Unify.atDepth_errs _ a b T)

/-! ## Solving -/

namespace Solve

variable {S : Setting} {T : VarTable}

/-- An error of a decision is about the equality of a field and the type declared for it. -/
theorem decideTrait_errs (o : Origin) (leader : Ty) (trait : Trait) :
    (decideTrait S o leader trait).Ends T (fun _ _ => True) (fun e _ => e.OfEquality o)
      fun _ => True := by
  cases trait with
  | eq | ord | callable => trivial
  | hasField field u scope =>
    refine Action.ends_require_bind (fun fields _ => ?_) fun _ _ => trivial
    split
    · trivial
    · exact Action.Ends.bind (unify_errs _ u o T) fun _ _ _ => trivial
  | convertibleTo u =>
    exact Action.ends_get_bind <| Action.ends_require_bind (fun _ _ =>
      Action.ends_require_bind (fun _ _ => trivial) fun _ _ => trivial) fun _ _ => trivial

theorem refuse_errs {α : Type} (o : Origin) (leader : Ty) (trait : Trait) :
    (refuse o leader trait : Action VarTable α).Ends T (fun _ _ => True)
      (fun e _ => ∃ t, e = .traitNotSatisfied t trait.name o) fun _ => True :=
  Action.ends_get_bind <| Action.ends_require_bind
    (fun t _ => Action.ends_fail ⟨t, rfl⟩) fun _ _ => trivial

/-- An error of one look at an obligation is about a clash of types or a trait refused. -/
theorem discharge_errs (o : Obligation) : (discharge S o).Ends T (fun _ _ => True)
    (fun e _ => e.OfEquality o.origin ∨ ∃ t name, e = .traitNotSatisfied t name o.origin)
    fun _ => True := by
  obtain ⟨c, o⟩ := o
  cases c with
  | equal a b =>
    exact Action.Ends.bind ((unify_errs a b o T).mono (fun _ _ => id) (fun _ _ => .inl)
      fun _ => id) fun _ _ _ => trivial
  | has t trait =>
    refine Action.ends_get_bind (Action.ends_require_bind (fun leader _ => ?_) fun _ _ => trivial)
    split
    · trivial
    · refine Action.Ends.bind ((decideTrait_errs o _ trait).mono (fun _ _ => id)
        (fun _ _ => .inl) fun _ => id) fun b T' _ => ?_
      split
      · trivial
      · exact (refuse_errs o _ trait).mono (fun _ _ => id)
          (fun e _ ⟨u, he⟩ => .inr ⟨u, trait.name, he⟩) fun _ => id

/-- The error carries the origin of an obligation of the list. -/
def OneOf (os : List Obligation) (e : TypeError) : Prop := ∃ o ∈ os, e.origin? = some o.origin

theorem OneOf.mono {os os' : List Obligation} {e : TypeError} (h : OneOf os e)
    (hs : ∀ o ∈ os, o ∈ os') : OneOf os' e :=
  let ⟨o, ho, he⟩ := h
  ⟨o, hs o ho, he⟩

theorem pass_errs : ∀ (os : List Obligation) (T : VarTable), (pass S os).Ends T
    (fun rest _ => ∀ o ∈ rest, o ∈ os) (fun e _ => OneOf os e) fun _ => True
  | [], _ => Action.ends_pure fun _ => id
  | o :: os, T => by
    have hrest : ∀ T, (pass S os).Ends T (fun rest _ => ∀ p ∈ rest, p ∈ os)
        (fun e _ => OneOf (o :: os) e) fun _ => True := fun T =>
      (pass_errs os T).mono (fun _ _ => id)
        (fun _ _ he => he.mono fun _ => List.mem_cons_of_mem o) fun _ => id
    refine Action.Ends.bind ((discharge_errs o).mono (fun _ _ => id) (fun e _ he => ?_)
      fun _ => id) fun v T' _ => ?_
    · refine ⟨o, List.mem_cons_self, ?_⟩
      obtain he | ⟨t, name, rfl⟩ := he
      · exact he.origin?
      · rfl
    · cases v with
      | discharged =>
        exact (hrest T').mono (fun _ _ h p hp => List.mem_cons_of_mem o (h p hp)) (fun _ _ => id)
          fun _ => id
      | deferred =>
        refine Action.Ends.bind (hrest T') fun rest _ h => Action.ends_pure ?_
        exact List.forall_mem_cons.2
          ⟨List.mem_cons_self, fun p hp => List.mem_cons_of_mem o (h p hp)⟩

theorem stuck_errs {α : Type} (o : Obligation) : (stuck o : Action VarTable α).Ends T
    (fun _ _ => True) (fun e _ => e.origin? = some o.origin) fun _ => True :=
  Action.ends_get_bind <| Action.ends_require_bind (fun _ _ => Action.ends_fail rfl)
    fun _ _ => trivial

theorem passes_errs : ∀ (more : Nat) (pending : List Obligation) (T : VarTable),
    (passes S more pending).Ends T (fun _ _ => True) (fun e _ => OneOf pending e) fun _ => True
  | more, pending, T => by
    unfold passes
    refine Action.Ends.bind (pass_errs pending T) fun rest T' hrest => ?_
    split
    · trivial
    · rename_i o os
      have hstuck : (stuck o : Action VarTable Unit).Ends T' (fun _ _ => True)
          (fun e _ => OneOf pending e) fun _ => True :=
        (stuck_errs o).mono (fun _ _ => id) (fun _ _ he => ⟨o, hrest o List.mem_cons_self, he⟩)
          fun _ => id
      split
      · exact hstuck
      · rename_i more
        split
        · exact hstuck
        · exact (passes_errs more (o :: os) T').mono (fun _ _ => id)
            (fun _ _ he => he.mono hrest) fun _ => id

end Solve

theorem solve_errs {S : Setting} (maxPasses : Nat) (pending : List Obligation) (T : VarTable) :
    (solve S maxPasses pending).Ends T (fun _ _ => True) (fun e _ => Solve.OneOf pending e)
      fun _ => True := by
  unfold solve
  split
  · trivial
  · exact Solve.passes_errs _ pending T

end TypeInference
