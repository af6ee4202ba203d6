import TypeInference.Proofs.Solve.Casts
import TypeInference.Proofs.Unify.Reachable
import TypeInference.Proofs.VarTable.Readings

/-!
# The types that an error shows

A type is `Resolved` in a table when it says all that the table knows of it. An error of `unify` or
of `solve` shows types that are resolved in the table left, or it is about two layouts that were
declared under different names (`Run.shows`, `discharge_shows`). These are shown as they were found:
they are resolved exactly when their fields are, and else the error is `Stale`
(`Shows.resolved_iff`, `errors_resolved`; a stale one in `layouts_unresolved`).
-/

namespace TypeInference

open VarTable Unify

/-- The types that an error shows. -/
def TypeError.types : TypeError → List Ty
  | .mismatch expected found _ => [expected, found]
  | .occursCheck _ t _ | .notAStruct _ t _ | .traitNotSatisfied t _ _ => [t]
  | .unboundName .. | .arityMismatch .. | .argumentCountMismatch .. | .structArityMismatch ..
  | .unresolvedConstraint .. => []

/-- A mismatch of two layouts that were declared under different names. -/
inductive TypeError.TwoNames : TypeError → Prop
  | intro {m n : String} (h : m ≠ n) (fs gs : List (String × Ty)) (o : Origin) :
    TwoNames (.mismatch (.struct (some m) fs) (.struct (some n) gs) o)

/-- A mismatch of two names whose layouts have a field of which the table knows more than the field
says. -/
inductive TypeError.Stale (T : VarTable) : TypeError → Prop
  | intro {m n : String} (h : m ≠ n) {fs gs : List (String × Ty)} (o : Origin) {f : String × Ty}
    (hf : f ∈ fs ++ gs) (hne : T.resolve f.2 ≠ f.2) :
    Stale T (.mismatch (.struct (some m) fs) (.struct (some n) gs) o)

/-- Resolving changes nothing: every variable of the type is the root of an unbound class. -/
structure VarTable.Resolved (T : VarTable) (t : Ty) : Prop where
  fixed : T.resolve t = t
  unbound : ∀ v ∈ t.occurrences, T.root v = v ∧ T.value? v = none

theorem VarTable.Wf.resolved_resolve {T : VarTable} (h : T.Wf) (t : Ty) :
    T.Resolved (T.resolve t) :=
  ⟨h.resolve_resolve t, fun _ hv => h.of_mem_resolve hv⟩

theorem VarTable.Wf.resolved_iff {T : VarTable} (h : T.Wf) {t : Ty} :
    T.Resolved t ↔ T.resolve t = t := by
  refine ⟨Resolved.fixed, fun ht => ?_⟩
  rw [← ht]
  exact h.resolved_resolve t

theorem VarTable.resolve_struct_eq_self {T : VarTable} {n : Option String}
    {fs : List (String × Ty)} :
    T.resolve (.struct n fs) = .struct n fs ↔ ∀ f ∈ fs, T.resolve f.2 = f.2 := by
  have hfs : T.resolve (.struct n fs) = .struct n (fs.map fun f => (f.1, T.resolve f.2)) :=
    resolveExcept_struct n fs
  rw [hfs, Ty.struct.injEq, and_iff_right rfl]
  conv_lhs => rhs; rw [← List.map_id fs]
  simp only [List.map_inj_left, id_eq, Prod.ext_iff, true_and]

/-- The error shows types that are resolved in the table, or it is about two names. -/
def TypeError.Shows (e : TypeError) (T : VarTable) : Prop :=
  e.TwoNames ∨ ∀ t ∈ e.types, T.Resolved t

/-- Two layouts of different names are resolved exactly when their fields are. -/
theorem TypeError.Shows.resolved_iff {T : VarTable} (h : T.Wf) {e : TypeError} (he : e.Shows T) :
    (∀ t ∈ e.types, T.Resolved t) ↔ ¬ e.Stale T := by
  constructor
  · rintro hr ⟨hne, o, hf, hstale⟩
    obtain ⟨hfs, hgs⟩ := List.forall_mem_cons.1 hr
    rcases List.mem_append.1 hf with hf | hf
    · exact hstale (resolve_struct_eq_self.1 hfs.fixed _ hf)
    · exact hstale (resolve_struct_eq_self.1 (List.forall_mem_singleton.1 hgs).fixed _ hf)
  · intro hs
    refine he.elim ?_ id
    rintro ⟨hne, fs, gs, o⟩
    have hfix : ∀ f ∈ fs ++ gs, T.resolve f.2 = f.2 := fun f hf =>
      Classical.byContradiction fun hr => hs (.intro hne o hf hr)
    obtain ⟨hfs, hgs⟩ := List.forall_mem_append.1 hfix
    exact List.forall_mem_cons.2 ⟨h.resolved_iff.2 (resolve_struct_eq_self.2 hfs),
      List.forall_mem_singleton.2 (h.resolved_iff.2 (resolve_struct_eq_self.2 hgs))⟩

/-! ## Unification -/

namespace Ty

theorem twoNames_of_confront {a b : Ty} (o : Origin) :
    a.confront b = .differentNames → (TypeError.mismatch a b o).TwoNames := by
  fun_cases confront a b
  case case14 m fs n gs =>
    unfold confrontFields
    split
    · rename_i hn
      obtain ⟨hm, hn, hne⟩ := hn
      obtain ⟨k, rfl⟩ := Option.isSome_iff_exists.1 hm
      obtain ⟨l, rfl⟩ := Option.isSome_iff_exists.1 hn
      exact fun _ => .intro (fun hkl => hne (congrArg some hkl)) fs gs o
    · repeat' split
      all_goals
        intro h
        cases h
  all_goals
    intro h
    cases h

end Ty

section
variable {T T' : VarTable} {o : Origin}

/-- Wherever in the two types a run stops, and whatever was bound before. -/
theorem Unify.Run.shows {ps : List (Ty × Ty)} {e : Option TypeError} (hr : Run o T ps e T')
    (h : T.Wf) : ∀ e' ∈ e, e'.Shows T' := by
  induction hr with
  | done T => nofun
  | parts hc _ ih => exact ih h
  | merge hc hv hw _ ih => exact ih (unite_of_merge h hc hv hw).1
  | assign hc hv ht ho _ ih => exact ih (assign_of_assign h hc hv ht ho).1
  | @occurs T a b t v ps hc ho =>
    rintro e' ⟨⟩
    exact .inr (List.forall_mem_singleton.2 (h.resolved_resolve t))
  | @clash T a b e ps hc =>
    rintro e' ⟨⟩
    generalize hab : (T.leader a).confront (T.leader b) = c at hc
    cases c with
    | differentShape =>
      cases hc
      exact .inr (List.forall_mem_cons.2 ⟨h.resolved_resolve _,
        List.forall_mem_singleton.2 (h.resolved_resolve _)⟩)
    | differentNames =>
      cases hc
      exact .inl (Ty.twoNames_of_confront o hab)
    | differentArity m n =>
      cases hc
      exact .inr nofun
    | _ => cases hc

theorem VarTable.Wf.unify_shows (h : T.Wf) (a b : Ty) (o : Origin) : (unify a b o).Ends T
    (fun _ _ => True) (fun e T' => e.Shows T') fun _ => True :=
  (h.unify_ends a b o).mono (fun _ _ _ => trivial) (fun _ _ hr => hr.shows h _ rfl)
    fun _ _ => trivial

end

/-! ## Solving -/

namespace Solve

variable {S : Setting} {T T' : VarTable}

theorem decideTrait_shows (h : T.Wf) (o : Origin) (leader : Ty) (trait : Trait) :
    (decideTrait S o leader trait).Ends T (fun _ _ => True) (fun e T' => e.Shows T')
      fun _ => True := by
  cases trait with
  | eq | ord | callable => trivial
  | hasField field u scope =>
    refine Action.ends_require_bind (fun fields _ => ?_) fun _ _ => trivial
    split
    · trivial
    · exact Action.Ends.bind (h.unify_shows _ u o) fun _ _ _ => trivial
  | convertibleTo u =>
    exact Action.ends_get_bind <| Action.ends_require_bind (fun _ _ =>
      Action.ends_require_bind (fun _ _ => trivial) fun _ _ => trivial) fun _ _ => trivial

theorem refuse_shows {α : Type} (h : T.Wf) (o : Origin) (leader : Ty) (trait : Trait) :
    (refuse o leader trait : Action VarTable α).Ends T (fun _ _ => True)
      (fun e T' => e.Shows T') fun _ => True := by
  refine Action.ends_get_bind ?_
  obtain ⟨ht, -⟩ | ⟨⟨f, hf⟩, -⟩ := T.checkedResolve_cases leader
  · rw [ht]
    exact Action.ends_fail (.inr (List.forall_mem_singleton.2 (h.resolved_resolve leader)))
  · rw [hf]
    trivial

theorem discharge_shows (h : T.Wf) (o : Obligation) : (discharge S o).Ends T (fun _ _ => True)
    (fun e T' => e.Shows T') fun _ => True := by
  obtain ⟨c, o⟩ := o
  cases c with
  | equal a b => exact Action.Ends.bind (h.unify_shows a b o) fun _ _ _ => trivial
  | has t trait =>
    refine Action.ends_get_bind ?_
    obtain ⟨hl, -⟩ | ⟨⟨f, hf⟩, -⟩ := T.checkedLeader_cases t
    · refine Action.ends_require_bind (fun l hl' => ?_) fun _ _ => trivial
      obtain rfl : T.leader t = l := Except.ok.inj (hl.symm.trans hl')
      split
      · trivial
      · rename_i hne
        have hdecide := (decideTrait_ends h (fun v hv => hne v hv) o trait).and
          (decideTrait_shows (S := S) h o (T.leader t) trait)
        refine Action.Ends.bind (hdecide.mono (fun _ _ => id) (fun _ _ he => he.2)
          fun _ _ => trivial) fun b T' hb => ?_
        split
        · trivial
        · exact refuse_shows hb.1.1.1 o _ trait
    · exact Action.ends_require_bind (fun l hl' => by rw [hf] at hl'; cases hl') fun _ _ => trivial

theorem pass_shows : ∀ (os : List Obligation) {T : VarTable}, T.Wf → (pass S os).Ends T
    (fun _ _ => True) (fun e T' => e.Shows T') fun _ => True
  | [], _, _ => trivial
  | o :: os, T, h => by
    have hdischarge := (discharge_ends (S := S) h o).and (discharge_shows h o)
    refine Action.Ends.bind (hdischarge.mono (fun _ _ => id) (fun _ _ he => he.2)
      fun _ _ => trivial) fun v T' hv => ?_
    have hos := pass_shows os (T := T') hv.1.1.1
    cases v with
    | discharged => exact hos
    | deferred => exact Action.Ends.bind hos fun _ _ _ => trivial

theorem stuck_shows {α : Type} (o : Obligation) : (stuck o : Action VarTable α).Ends T
    (fun _ _ => True) (fun e T' => e.Shows T') fun _ => True :=
  Action.ends_get_bind <| Action.ends_require_bind (fun _ _ => Action.ends_fail (.inr nofun))
    fun _ _ => trivial

theorem passes_shows : ∀ (more : Nat) (pending : List Obligation) {T : VarTable}, T.Wf →
    (passes S more pending).Ends T (fun _ _ => True) (fun e T' => e.Shows T') fun _ => True
  | more, pending, T, h => by
    unfold passes
    have hpass := (pass_ends (S := S) pending h).and (pass_shows pending h)
    refine Action.Ends.bind (hpass.mono (fun _ _ => id) (fun _ _ he => he.2)
      fun _ _ => trivial) fun rest T' hr => ?_
    split
    · trivial
    · rename_i o os
      split
      · exact stuck_shows o
      · rename_i more
        split
        · exact stuck_shows o
        · exact passes_shows more (o :: os) hr.1.1.1

theorem solve_shows (h : T.Wf) (maxPasses : Nat) (pending : List Obligation) :
    (solve S maxPasses pending).Ends T (fun _ _ => True) (fun e T' => e.Shows T')
      fun _ => True := by
  unfold solve
  split
  · trivial
  · exact passes_shows _ pending h

/-- On a reachable table, `unify` and `solve` show types that are resolved in the table they leave,
unless they report two layouts that were declared under different names and more is known of one of
their fields than it says. -/
theorem errors_resolved (hT : Reachable T) (e : TypeError) :
    (∀ a b o, (unify a b o).outcome T = (.error (.error e), T') →
      ((∀ t ∈ e.types, T'.Resolved t) ↔ ¬ e.Stale T')) ∧
    ∀ S maxPasses os, (solve S maxPasses os).outcome T = (.error (.error e), T') →
      ((∀ t ∈ e.types, T'.Resolved t) ↔ ¬ e.Stale T') := by
  refine ⟨fun a b o hu => ?_, fun S maxPasses os hs => ?_⟩
  · have hrun : Run o T [(a, b)] (some e) T' := (hT.wf.unify_ends a b o).of_error hu
    exact (hrun.shows hT.wf e rfl).resolved_iff (hrun.wf hT.wf).1
  · have hwf : T'.Wf := ((solve_ends hT.wf maxPasses os).of_error hs).1
    exact ((solve_shows hT.wf maxPasses os).of_error hs).resolved_iff hwf

/-- The second parameter is compared after the first was bound: two layouts of other fields, and two
of other names. The trait is refused after the type it asks about was learned. -/
theorem errors_resolved_bound :
    let T : VarTable := (∅ : VarTable).mint.2.mint.2
    let T' : VarTable := ⟨#[.root 0 (some (.ptr (.var 1))), .root 0 none]⟩
    let layout (n : Option String) (x : String) (t : Ty) : Ty := .struct n [(x, t)]
    let fields : TypeError :=
      .mismatch (layout none "x" (.ptr (.var 1))) (layout none "y" .int) .builtin
    let names : TypeError :=
      .mismatch (layout (some "P") "x" (.var 1)) (layout (some "Q") "x" .int) .builtin
    let refused : TypeError := .traitNotSatisfied (.ptr (.var 1)) Trait.ord.name (.cast ⟨0, 1⟩)
    let os : List Obligation := [⟨.has (.var 0) .ord, .cast ⟨0, 1⟩⟩,
      ⟨.equal (.var 0) (.ptr (.var 1)), .builtin⟩]
    ((unify (.fn [.var 0, layout none "x" (.var 0)] .unit)
        (.fn [.ptr (.var 1), layout none "y" .int] .unit) .builtin).outcome T =
          (.error (.error fields), T') ∧ ∀ t ∈ fields.types, T'.Resolved t) ∧
      ((unify (.fn [.var 0, layout (some "P") "x" (.var 1)] .unit)
        (.fn [.ptr (.var 1), layout (some "Q") "x" .int] .unit) .builtin).outcome T =
          (.error (.error names), T') ∧ ∀ t ∈ names.types, T'.Resolved t) ∧
      (solve pointSetting 2 os).outcome T = (.error (.error refused), T') ∧
        ∀ t ∈ refused.types, T'.Resolved t := by
  intro T T' layout fields names refused os
  have hT : Reachable T := .tail (.tail .refl (.mint _)) (.mint _)
  have hfields : (unify (.fn [.var 0, layout none "x" (.var 0)] .unit)
      (.fn [.ptr (.var 1), layout none "y" .int] .unit) .builtin).outcome T =
        (.error (.error fields), T') := by decide +kernel
  have hnames : (unify (.fn [.var 0, layout (some "P") "x" (.var 1)] .unit)
      (.fn [.ptr (.var 1), layout (some "Q") "x" .int] .unit) .builtin).outcome T =
        (.error (.error names), T') := by decide +kernel
  have hsolve : (solve pointSetting 2 os).outcome T = (.error (.error refused), T') := by
    decide +kernel
  have hsound : ¬ fields.Stale T' ∧ ¬ refused.Stale T' := by
    simp only [fields, refused, layout]
    exact ⟨nofun, nofun⟩
  have hknown : ¬ names.Stale T' := by
    simp only [names, layout]
    rintro ⟨-, -, hf, hne⟩
    have hfixed : ∀ f ∈ [("x", Ty.var 1), ("x", Ty.int)], T'.resolve f.2 = f.2 := by
      decide +kernel
    exact hne (hfixed _ hf)
  exact ⟨⟨hfields, ((errors_resolved hT _).1 _ _ _ hfields).2 hsound.1⟩,
    ⟨hnames, ((errors_resolved hT _).1 _ _ _ hnames).2 hknown⟩,
    hsolve, ((errors_resolved hT _).2 _ _ _ hsolve).2 hsound.2⟩

/-- The layout found is known to hold an `int`, and is shown with a variable. -/
theorem layouts_unresolved :
    let T : VarTable := ⟨#[.root 0 (some .int)]⟩
    let p : Ty := .struct (some "P") [("x", .var 0)]
    let q : Ty := .struct (some "Q") [("x", .int)]
    Reachable T ∧ (unify p q .builtin).outcome T = (.error (.error (.mismatch p q .builtin)), T) ∧
      p ∈ (TypeError.mismatch p q .builtin).types ∧ ¬ T.Resolved p := by
  intro T p q
  have hu : (unify (.var 0) .int .builtin).Answers (∅ : VarTable).mint.2 T :=
    Action.answers_of_ok rfl
  refine ⟨.tail (.tail .refl (.mint _)) (.unify _ _ _ hu), rfl, List.mem_cons_self, fun h => ?_⟩
  exact absurd (h.unbound 0 List.mem_cons_self).2 nofun

end Solve

end TypeInference
