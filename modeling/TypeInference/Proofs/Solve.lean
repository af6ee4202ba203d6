import TypeInference.Proofs.Program.Regions
import TypeInference.Proofs.Unify.Permanent
import TypeInference.Solve

/-!
# What a clean solve establishes

`Constraint.Holds S T c`: the constraint `c` is true of the types that the table `T` gives its
variables. A constraint that holds goes on holding while the table grows (`Holds.mono`) and while
the declared layouts stay (`Holds.congr`).

An obligation that is discharged holds in the table it leaves (`discharge_ends`); the ones put off
are passed on, so after a solve without an error each of them was discharged on the way and all of
them hold at once (`solve_ends`). `solve_meets_all` says so of reachable tables.
-/

namespace TypeInference

open Ty

/-! ## Layouts -/

/-- A known type is a layout with the fields `fields`, or the name of one declared where `scope` can
see it. -/
inductive Denotes (S : ScopeTree) (scope : ScopeId) : Ty → List (String × Ty) → Prop
  | own (name : Option String) (fields : List (String × Ty)) :
      Denotes S scope (.struct name fields) fields
  | declared {name : String} {x : SymbolId} {y : Symbol} {vars : List TyVar} {n : Option String}
      {fields : List (String × Ty)} : isBuiltinName name = false →
      S.lookup? scope name = some x → S.symbol? x = some y → y.kind = .type →
      y.scheme = some ⟨vars, .struct n fields⟩ → Denotes S scope (.con name) fields

theorem declaredFields?_eq_some {y : Symbol} {fields : List (String × Ty)} :
    Solve.declaredFields? y = some fields ↔
      y.kind = .type ∧ ∃ vars n, y.scheme = some ⟨vars, .struct n fields⟩ := by
  unfold Solve.declaredFields?
  split
  · rename_i hk hs
    rw [hk, hs]
    simp
  · rename_i hn
    refine iff_of_false nofun fun ⟨hk, vars, n, hs⟩ => hn vars n fields hk hs

theorem denotes_of_fields? {S : Setting} {scope : ScopeId} {t : Ty} {fields : List (String × Ty)}
    (h : Solve.fields? S scope t = .ok (some fields)) : Denotes S.scopes scope t fields := by
  cases t with
  | struct n fs =>
    cases h
    exact .own n _
  | con name =>
    simp only [Solve.fields?] at h
    split at h
    · cases h
    · rename_i hb
      cases hs : S.scopes.requireScope scope with
      | error f => rw [hs] at h; cases h
      | ok c =>
        rw [hs] at h
        simp only [Bind.bind, Except.bind, pure, Except.pure, Except.ok.injEq] at h
        obtain ⟨y, hy, hf⟩ := Option.bind_eq_some_iff.1 h
        obtain ⟨x, hx, hy⟩ := Option.bind_eq_some_iff.1 hy
        obtain ⟨hk, vars, n, hσ⟩ := declaredFields?_eq_some.1 hf
        exact .declared (Bool.eq_false_iff.2 hb) hx hy hk hσ
  | _ => cases h

/-- The same scopes, and the same layouts declared by their symbols. -/
structure ScopeTree.SameLayouts (S S' : ScopeTree) : Prop where
  scopes : S'.scopes = S.scopes
  fields : ∀ x, (S'.symbol? x).bind Solve.declaredFields? = (S.symbol? x).bind Solve.declaredFields?

namespace ScopeTree.SameLayouts

variable {S S' S'' : ScopeTree}

theorem refl (S : ScopeTree) : S.SameLayouts S := ⟨rfl, fun _ => rfl⟩

theorem trans (h : S.SameLayouts S') (h' : S'.SameLayouts S'') : S.SameLayouts S'' :=
  ⟨h'.scopes.trans h.scopes, fun x => (h'.fields x).trans (h.fields x)⟩

theorem lookup? (h : S.SameLayouts S') (s : ScopeId) (name : String) :
    S'.lookup? s name = S.lookup? s name :=
  lookup?_congr h.scopes s name

end ScopeTree.SameLayouts

theorem Denotes.congr {S S' : ScopeTree} (hs : S.SameLayouts S') {scope : ScopeId} {t : Ty}
    {fields : List (String × Ty)} (h : Denotes S scope t fields) : Denotes S' scope t fields := by
  cases h with
  | own n => exact .own n _
  | @declared name x y vars n fields hb hx hy hk hσ =>
    have hf := hs.fields x
    rw [hy, Option.bind_some, declaredFields?_eq_some.2 ⟨hk, vars, n, hσ⟩] at hf
    obtain ⟨y', hy', hf⟩ := Option.bind_eq_some_iff.1 hf
    obtain ⟨hk', vars', n', hσ'⟩ := declaredFields?_eq_some.1 hf
    exact .declared hb (by rwa [hs.lookup?]) hy' hk' hσ'

/-! ## Constraints that hold -/

/-- The constraint is true of what the table says. -/
def Constraint.Holds (S : Setting) (T : VarTable) : Constraint → Prop
  | .equal a b => Same (T.resolve a) (T.resolve b)
  | .has t .eq => S.traits.satisfiesEq (T.leader t)
  | .has t .ord => S.traits.satisfiesOrd (T.leader t)
  | .has t .callable => ∃ params result, T.leader t = .fn params result
  | .has t (.hasField field u scope) => ∃ fields declared,
      Denotes S.scopes scope (T.leader t) fields ∧ fieldType? field fields = some declared ∧
        Same (T.resolve declared) (T.resolve u)
  | .has t (.convertibleTo u) => S.traits.converts (T.resolve t) (T.resolve u)

/-- What has been found convertible stays so when variables are replaced. -/
theorem TraitTable.converts_bind {C : TraitTable} {s t : Ty} (h : C.converts s t)
    (f : TyVar → Ty) : C.converts (s.bind f) (t.bind f) := by
  simp only [converts, Bool.or_eq_true, beq_iff_eq] at h ⊢
  refine h.imp (congrArg _) fun h => ?_
  unfold convertsHead at h ⊢
  split at h <;> simp_all [Ty.bind]

namespace Constraint.Holds

open VarTable

variable {S : Setting} {T T' : VarTable} {c : Constraint}

theorem mono (h : T.Wf) (h' : T'.Wf) (he : T.Extends T') (hc : c.Holds S T) : c.Holds S T' := by
  have hl : ∀ {t : Ty}, (∀ v, T.leader t ≠ .var v) → T'.leader t = T.leader t :=
    fun ht => he.leader_eq h h' ht
  match c with
  | .equal a b => exact he.same h h' hc
  | .has t .eq =>
    have hc : S.traits.satisfiesEq (T.leader t) := hc
    show S.traits.satisfiesEq (T'.leader t)
    rwa [hl fun v hv => by simp [hv, TraitTable.satisfiesEq] at hc]
  | .has t .ord =>
    have hc : S.traits.satisfiesOrd (T.leader t) := hc
    show S.traits.satisfiesOrd (T'.leader t)
    rwa [hl fun v hv => by simp [hv, TraitTable.satisfiesOrd] at hc]
  | .has t .callable =>
    obtain ⟨ps, r, hc⟩ := hc
    exact ⟨ps, r, by rw [hl (by simp [hc]), hc]⟩
  | .has t (.hasField field u scope) =>
    obtain ⟨fields, declared, hd, hf, hs⟩ := hc
    refine ⟨fields, declared, ?_, hf, he.same h h' hs⟩
    rwa [hl fun v hv => by rw [hv] at hd; cases hd]
  | .has t (.convertibleTo u) =>
    show S.traits.converts (T'.resolve t) (T'.resolve u)
    rw [← he.resolve_resolve h h' t, ← he.resolve_resolve h h' u, resolve_eq_bind,
      resolve_eq_bind (T.resolve u)]
    exact TraitTable.converts_bind hc _

theorem congr {scopes scopes' : ScopeTree} {traits : TraitTable} (hs : scopes.SameLayouts scopes')
    (hc : c.Holds ⟨scopes, traits⟩ T) : c.Holds ⟨scopes', traits⟩ T := by
  match c with
  | .equal a b => exact hc
  | .has t .eq => exact hc
  | .has t .ord => exact hc
  | .has t .callable => exact hc
  | .has t (.hasField field u scope) =>
    obtain ⟨fields, declared, hd, hc⟩ := hc
    exact ⟨fields, declared, hd.congr hs, hc⟩
  | .has t (.convertibleTo u) => exact hc

end Constraint.Holds

/-! ## Solving -/

namespace Solve

open VarTable

variable {S : Setting} {T : VarTable}

/-- On the way from `T` to `T'` the obligation was discharged, and in `T'` it holds. -/
structure Met (S : Setting) (T : VarTable) (o : Obligation) (T' : VarTable) : Prop where
  holds : o.constraint.Holds S T'
  discharged : ∃ T1 T2, T.Extends T1 ∧ (discharge S o).outcome T1 = (.ok .discharged, T2) ∧
    T2.Extends T'

theorem Met.earlier {T0 T' : VarTable} {o : Obligation} (hm : Met S T o T') (he : T0.Extends T) :
    Met S T0 o T' := by
  obtain ⟨hh, T1, T2, h1, hd, h2⟩ := hm
  exact ⟨hh, T1, T2, he.trans h1, hd, h2⟩

theorem Met.later {T' T'' : VarTable} {o : Obligation} (hm : Met S T o T') (h' : T'.Wf)
    (h'' : T''.Wf) (he : T'.Extends T'') : Met S T o T'' := by
  obtain ⟨hh, T1, T2, h1, hd, h2⟩ := hm
  exact ⟨hh.mono h' h'' he, T1, T2, h1, hd, h2.trans he⟩

theorem isFunction_iff {t : Ty} : isFunction t = true ↔ ∃ params result, t = .fn params result := by
  cases t <;> simp [isFunction]

/-- A trait that is decided in favour of a known type holds of it. -/
theorem decideTrait_ends (h : T.Wf) {t : Ty} (ht : ∀ v, T.leader t ≠ .var v) (o : Origin)
    (trait : Trait) : (decideTrait S o (T.leader t) trait).Ends T
      (fun b T' => (T'.Wf ∧ T.Extends T') ∧ (b = true → (Constraint.has t trait).Holds S T'))
      (fun _ T' => T'.Wf ∧ T.Extends T') fun _ => True := by
  have hT : T.Wf ∧ T.Extends T := ⟨h, .refl h.toLinked⟩
  cases trait with
  | eq => exact Action.ends_pure ⟨hT, id⟩
  | ord => exact Action.ends_pure ⟨hT, id⟩
  | callable => exact Action.ends_pure ⟨hT, isFunction_iff.1⟩
  | hasField field u scope =>
    refine Action.ends_require_bind (fun r hr => ?_) fun _ _ => trivial
    split
    · exact Action.ends_pure ⟨hT, fun hb => by cases hb⟩
    · rename_i declared hd
      refine Action.Ends.bind (h.unify_grows declared u o) ?_
      rintro - T' ⟨hT', hs⟩
      refine Action.ends_pure ⟨hT', fun _ => ?_⟩
      obtain ⟨fields, rfl, hf⟩ := Option.bind_eq_some_iff.1 hd
      refine ⟨fields, declared, ?_, hf, hs⟩
      rw [hT'.2.leader_eq h hT'.1 ht]
      exact denotes_of_fields? hr
  | convertibleTo u =>
    refine Action.ends_get_bind ?_
    obtain ⟨ha, -⟩ | ⟨⟨f, ha⟩, -⟩ := T.checkedResolve_cases (T.leader t)
    · obtain ⟨hb, -⟩ | ⟨⟨f, hb⟩, -⟩ := T.checkedResolve_cases u
      · rw [ha, hb]
        refine Action.ends_pure ⟨hT, fun hc => ?_⟩
        rw [h.resolve_leader] at hc
        exact hc
      · rw [ha, hb]
        trivial
    · rw [ha]
      trivial

/-- An obligation that is discharged holds. -/
theorem discharge_ends (h : T.Wf) (o : Obligation) : (discharge S o).Ends T
    (fun v T' => (T'.Wf ∧ T.Extends T') ∧ (v = .discharged → o.constraint.Holds S T'))
    (fun _ T' => T'.Wf ∧ T.Extends T') fun _ => True := by
  have hT : T.Wf ∧ T.Extends T := ⟨h, .refl h.toLinked⟩
  obtain ⟨c, o⟩ := o
  cases c with
  | equal a b =>
    exact Action.Ends.bind (h.unify_grows a b o) fun _ T' ⟨hT', hs⟩ =>
      Action.ends_pure ⟨hT', fun _ => hs⟩
  | has t trait =>
    unfold discharge
    refine Action.ends_get_bind ?_
    obtain ⟨hl, -⟩ | ⟨⟨f, hl⟩, -⟩ := T.checkedLeader_cases t
    · refine Action.ends_require_bind (fun l hl' => ?_) fun _ _ => trivial
      obtain rfl : T.leader t = l := Except.ok.inj (hl.symm.trans hl')
      split
      · exact Action.ends_pure ⟨hT, nofun⟩
      · rename_i hne
        refine Action.Ends.bind (decideTrait_ends h (fun v hv => hne v hv) o trait)
          fun b T' ⟨hT', hb⟩ => ?_
        split
        · rename_i ht
          exact Action.ends_pure ⟨hT', fun _ => hb ht⟩
        · refine Action.ends_get_bind (Action.ends_require_bind (fun u _ => ?_) fun _ _ => trivial)
          exact Action.ends_fail hT'
    · refine Action.ends_require_bind (fun l hl' => ?_) fun _ _ => trivial
      rw [hl] at hl'
      cases hl'

/-- A pass discharges what it does not put off. -/
theorem pass_ends : ∀ (os : List Obligation) {T : VarTable}, T.Wf → (pass S os).Ends T
    (fun rest T' => (T'.Wf ∧ T.Extends T') ∧ ∀ o ∈ os, o ∈ rest ∨ Met S T o T')
    (fun _ T' => T'.Wf ∧ T.Extends T') fun _ => True
  | [], T, h => Action.ends_pure ⟨⟨h, .refl h.toLinked⟩, nofun⟩
  | o :: os, T, h => by
    unfold pass
    refine Action.Ends.bind (discharge_ends h o).withOutcome
      fun v T' ⟨hout, ⟨h', he⟩, hv⟩ => ?_
    have hos : (pass S os).Ends T' (fun rest T'' => (T''.Wf ∧ T.Extends T'') ∧ T'.Extends T'' ∧
        ∀ p ∈ os, p ∈ rest ∨ Met S T p T'') (fun _ T'' => T''.Wf ∧ T.Extends T'') fun _ => True :=
      (pass_ends os h').mono
        (fun rest T'' ⟨⟨h'', he'⟩, hr⟩ => ⟨⟨h'', he.trans he'⟩, he', fun p hp =>
          (hr p hp).imp_right (·.earlier he)⟩)
        (fun _ T'' ⟨h'', he'⟩ => ⟨h'', he.trans he'⟩) fun _ _ => trivial
    cases v with
    | discharged =>
      refine hos.mono (fun rest T'' ⟨hT'', he', hos⟩ => ⟨hT'', ?_⟩) (fun _ _ => id) fun _ => id
      have hm : Met S T o T' :=
        ⟨hv rfl, T, T', .refl h.toLinked, hout, .refl h'.toLinked⟩
      exact List.forall_mem_cons.2 ⟨.inr (hm.later h' hT''.1 he'), hos⟩
    | deferred =>
      refine Action.Ends.bind hos fun rest T'' ⟨hT'', _, hos⟩ => Action.ends_pure ⟨hT'', ?_⟩
      refine List.forall_mem_cons.2 ⟨.inl List.mem_cons_self, fun p hp => ?_⟩
      exact (hos p hp).imp_left (List.mem_cons_of_mem _)

theorem stuck_ends {α : Type} {Q : α → VarTable → Prop} (h : T.Wf) (o : Obligation) :
    (stuck o : Action VarTable α).Ends T Q (fun _ T' => T'.Wf ∧ T.Extends T') fun _ => True :=
  Action.ends_get_bind <| Action.ends_require_bind
    (fun _ _ => Action.ends_fail ⟨h, .refl h.toLinked⟩) fun _ _ => trivial

theorem passes_ends : ∀ (more : Nat) (pending : List Obligation) {T : VarTable}, T.Wf →
    (passes S more pending).Ends T
      (fun _ T' => (T'.Wf ∧ T.Extends T') ∧ ∀ o ∈ pending, Met S T o T')
      (fun _ T' => T'.Wf ∧ T.Extends T') fun _ => True
  | more, pending, T, h => by
    unfold passes
    refine Action.Ends.bind (pass_ends pending h) fun rest T' ⟨⟨h', he⟩, hos⟩ => ?_
    have later : ∀ {α : Type} {x : Action VarTable α} {Q : α → VarTable → Prop},
        x.Ends T' Q (fun _ T'' => T''.Wf ∧ T'.Extends T'') (fun _ => True) →
        x.Ends T' Q (fun _ T'' => T''.Wf ∧ T.Extends T'') fun _ => True := fun hx =>
      hx.mono (fun _ _ => id) (fun _ _ ⟨h'', he'⟩ => ⟨h'', he.trans he'⟩) fun _ => id
    split
    · exact Action.ends_pure ⟨⟨h', he⟩, fun o ho => (hos o ho).resolve_left nofun⟩
    · rename_i o os _
      split
      · exact later (stuck_ends h' o)
      · rename_i more
        split
        · exact later (stuck_ends h' o)
        · refine (later (passes_ends more (o :: os) h')).mono (fun _ T'' ⟨⟨h'', he'⟩, hr⟩ => ?_)
            (fun _ _ => id) fun _ => id
          refine ⟨⟨h'', he.trans he'⟩, fun p hp => ?_⟩
          exact (hos p hp).elim (fun hp => (hr p hp).earlier he) (·.later h' h'' he')

/-- After a solve without an error every obligation of the list is met. -/
theorem solve_ends (h : T.Wf) (maxPasses : Nat) (pending : List Obligation) :
    (solve S maxPasses pending).Ends T
      (fun _ T' => (T'.Wf ∧ T.Extends T') ∧ ∀ o ∈ pending, Met S T o T')
      (fun _ T' => T'.Wf ∧ T.Extends T') fun _ => True := by
  unfold solve
  split
  · exact Action.ends_pure ⟨⟨h, .refl h.toLinked⟩, nofun⟩
  · exact passes_ends _ pending h

/-- If a solve on a reachable table ends without an error, every obligation of its list was
discharged in one of the passes, and all of them hold in the table left. -/
theorem solve_meets_all {T' : VarTable} (hT : Reachable T) {maxPasses : Nat}
    {pending : List Obligation} (hs : (solve S maxPasses pending).outcome T = (.ok (), T')) :
    ∀ o ∈ pending, Met S T o T' :=
  ((solve_ends hT.wf maxPasses pending).of_ok hs).2

/-- A scope that declares `type p = {x: int}`. -/
def pointSetting : Setting where
  scopes := (ScopeTree.initial.declare 0
    ⟨"p", .type, ⟨0, 1⟩, some (.mono (.struct (some "p") [("x", .int)]))⟩).2
  traits := .builtin

/-- Two fields of one known type, each of which says what the next obligation waits for, and a cast
between them. -/
theorem solve_meets_all_fields :
    let T : VarTable := ((∅ : VarTable).mint.2.mint.2).mint.2
    let T' : VarTable := ⟨#[.root 0 (some (.ptr (.con "p"))), .root 0 (some (.con "p")),
      .root 0 (some .int)]⟩
    let pending : List Obligation := [
      ⟨.has (.var 2) (.convertibleTo .char), .builtin⟩,
      ⟨.has (.var 2) .ord, .builtin⟩,
      ⟨.has (.var 1) (.hasField "x" (.var 2) 0), .builtin⟩,
      ⟨.has (.struct none [("y", .var 0)]) (.hasField "y" (.ptr (.con "p")) 0), .builtin⟩,
      ⟨.equal (.var 0) (.ptr (.var 1)), .builtin⟩]
    (solve pointSetting 3 pending).outcome T = (.ok (), T') ∧
      ∀ o ∈ pending, Met pointSetting T o T' := by
  intro T T' pending
  have hT : Reachable T := .tail (.tail (.tail .refl (.mint _)) (.mint _)) (.mint _)
  have hs : (solve pointSetting 3 pending).outcome T = (.ok (), T') := by decide +kernel
  exact ⟨hs, solve_meets_all hT hs⟩

end Solve

end TypeInference
