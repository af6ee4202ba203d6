import TypeInference.Proofs.Solve.Passes

/-!
# The order of obligations does not matter

Two runs of the solver on permuted lists look at the obligations in different tables, put different
ones off and bind in a different order. What a run comes to depends on the list as a set only:

* one that succeeds leaves a table solved by those solutions of the first that meet every
  obligation, and it keeps every assignment under which each obligation is met or undecided
  (`Solved`);
* one that fails has refuted every assignment that meets all, or is stuck at an assignment under
  which each obligation is met or undecided, some of them undecided (`Fails`).

The two exclude each other (`Solved.not_fails`). A pass is read this way in `pass_meets`. Only a
pass that binds something can make another one worth while, and each pass but the first that binds
something discharges a `HasField` for good; so with two passes more than there are such obligations
no run ends for want of passes (`passes_meets`).
-/

namespace TypeInference

namespace Solve

open VarTable Ty Unify

/-! ## A pass -/

/-- What a pass over the obligations `os` from `U` leaves: the table `U'` and those put off. -/
structure Passed (S : Setting) (T U : VarTable) (os rest : List Obligation) (U' : VarTable) :
    Prop where
  fit : Fit T U'
  sublist : rest.Sublist os
  waited : ∀ o ∈ rest, ∃ t trait, o.constraint = .has t trait
  solves : ∀ θ, U'.Solves θ →
    U.Solves θ ∧ ∀ o ∈ os, o ∈ rest ∨ Meets S T θ o.constraint
  keeps : ∀ θ, U.Solves θ →
    (∀ o ∈ os, Meets S T θ o.constraint ∨ Undecided θ o.constraint) → U'.Solves θ
  progress : (U' = U ∧ ∀ o ∈ rest, Waits U o.constraint) ∨
    rest.countP (binds ·.constraint) < os.countP (binds ·.constraint)
  idle : (∀ o ∈ os, Waits U o.constraint) → rest = os

/-- No solution of the table meets all obligations. -/
def RefutesAll (S : Setting) (T U : VarTable) (os : List Obligation) : Prop :=
  ∀ θ, U.Solves θ → ¬ ∀ o ∈ os, Meets S T θ o.constraint

section
variable {S : Setting} {T U U' U1 : VarTable} {o : Obligation} {os rest : List Obligation}

/-- A pass that begins with an obligation that is discharged. -/
theorem Passed.discharged (hf : Fit T U) (hc : CutsTo S T U o.constraint U1)
    (hd : ∀ θ, U.Solves θ → ¬ Undecided θ o.constraint) (h : Passed S T U1 os rest U') :
    Passed S T U (o :: os) rest U' where
  fit := h.fit
  sublist := h.sublist.cons o
  waited := h.waited
  solves θ hs := by
    obtain ⟨hs, hos⟩ := h.solves θ hs
    obtain ⟨hs, ho⟩ := (hc.1 θ).1 hs
    exact ⟨hs, List.forall_mem_cons.2 ⟨.inr ho, hos⟩⟩
  keeps θ hs hm := by
    obtain ⟨ho, hos⟩ := List.forall_mem_cons.1 hm
    exact h.keeps θ ((hc.1 θ).2 ⟨hs, ho.resolve_right (hd θ hs)⟩) hos
  progress := by
    rw [List.countP_cons]
    rcases h.progress with ⟨rfl, hw⟩ | hlt
    · cases hb : binds o.constraint with
      | false =>
        obtain rfl := hc.2 hb
        exact .inl ⟨rfl, hw⟩
      | true => exact .inr (Nat.lt_succ_of_le h.sublist.countP_le)
    · exact .inr (Nat.lt_of_lt_of_le hlt (Nat.le_add_right _ _))
  idle hw := absurd ((hw o List.mem_cons_self).undecided hf.wf) (hd _ (solves_resolve hf.wf))

/-- A pass that begins with an obligation that is put off. -/
theorem Passed.deferred (hw : Waits U o.constraint) (h : Passed S T U os rest U') :
    Passed S T U (o :: os) (o :: rest) U' where
  fit := h.fit
  sublist := h.sublist.cons_cons o
  waited := by
    obtain ⟨t, trait, v, hc, -⟩ := hw
    exact List.forall_mem_cons.2 ⟨⟨t, trait, hc⟩, h.waited⟩
  solves θ hs := by
    obtain ⟨hs, hos⟩ := h.solves θ hs
    refine ⟨hs, List.forall_mem_cons.2 ⟨.inl List.mem_cons_self, fun p hp => ?_⟩⟩
    exact (hos p hp).imp_left (List.mem_cons_of_mem _)
  keeps θ hs hm := h.keeps θ hs (List.forall_mem_cons.1 hm).2
  progress := by
    rw [List.countP_cons, List.countP_cons]
    rcases h.progress with ⟨hU, hr⟩ | hlt
    · exact .inl ⟨hU, List.forall_mem_cons.2 ⟨hw, hr⟩⟩
    · exact .inr (Nat.add_lt_add_right hlt _)
  idle hws := by rw [h.idle (List.forall_mem_cons.1 hws).2]

theorem pass_meets (hS : NamelessLayouts S) : ∀ (os : List Obligation) {U : VarTable}, Fit T U →
    (∀ o ∈ os, Ordinary o.constraint) → (pass S os).Ends U
      (fun rest U' => Passed S T U os rest U') (fun _ _ => RefutesAll S T U os)
      fun _ => RefutesAll S T U os
  | [], U, hf, _ => by
    have hnil : ∀ {P : Obligation → Prop}, ∀ o ∈ [], P o := List.forall_mem_nil _
    exact Action.ends_pure ⟨hf, .refl _, hnil, fun _ hs => ⟨hs, hnil⟩, fun _ hs _ => hs,
      .inl ⟨rfl, hnil⟩, fun _ => rfl⟩
  | o :: os, U, hf, ho => by
    obtain ⟨ho, hos⟩ := List.forall_mem_cons.1 ho
    have hfirst : Refutes S T U o.constraint → RefutesAll S T U (o :: os) := fun hr θ hs hm =>
      hr θ hs (hm o List.mem_cons_self)
    unfold pass
    refine Action.Ends.bind ((discharge_meets hS hf o ho).mono (fun _ _ => id)
      (fun _ _ => hfirst) fun _ => hfirst) fun v U1 hv => ?_
    obtain ⟨hf1, hv⟩ := hv
    have hrest := pass_meets hS os hf1 hos
    cases v with
    | discharged =>
      obtain ⟨hc, hd⟩ := hv
      have hlater : RefutesAll S T U1 os → RefutesAll S T U (o :: os) := fun hr θ hs hm => by
        obtain ⟨ho, hos⟩ := List.forall_mem_cons.1 hm
        exact hr θ ((hc.1 θ).2 ⟨hs, ho⟩) hos
      exact hrest.mono (fun _ _ => .discharged hf hc hd) (fun _ _ => hlater) fun _ => hlater
    | deferred =>
      obtain ⟨rfl, hw⟩ := hv
      have hlater : RefutesAll S T U1 os → RefutesAll S T U1 (o :: os) := fun hr θ hs hm =>
        hr θ hs (List.forall_mem_cons.1 hm).2
      refine Action.Ends.bind (hrest.mono (fun _ _ => id) (fun _ _ => hlater) fun _ => hlater)
        fun rest U' h => Action.ends_pure (.deferred hw h)

/-! ## All passes -/

/-- What solving the obligations from `U` leaves when it succeeds (module doc). -/
structure Solved (S : Setting) (T U : VarTable) (os : List Obligation) (U' : VarTable) :
    Prop where
  fit : Fit T U'
  solves : ∀ θ, U'.Solves θ → U.Solves θ ∧ ∀ o ∈ os, Meets S T θ o.constraint
  keeps : ∀ θ, U.Solves θ →
    (∀ o ∈ os, Meets S T θ o.constraint ∨ Undecided θ o.constraint) → U'.Solves θ

/-- Why solving the obligations from `U` fails (module doc). -/
def Fails (S : Setting) (T U : VarTable) (os : List Obligation) : Prop :=
  RefutesAll S T U os ∨ ∃ θ, U.Solves θ ∧
    (∀ o ∈ os, Meets S T θ o.constraint ∨ Undecided θ o.constraint) ∧
      ∃ o ∈ os, Undecided θ o.constraint

theorem Solved.not_fails {os' : List Obligation} (h : Solved S T U os U')
    (hos : ∀ o, o ∈ os' ↔ o ∈ os) : ¬ Fails S T U os' := by
  rintro (hr | ⟨θ, hs, hm, o, ho, hu⟩)
  · obtain ⟨hs, hm⟩ := h.solves _ (solves_resolve h.fit.wf)
    exact hr _ hs fun o ho => hm o ((hos o).1 ho)
  · have hs' := h.keeps θ hs fun o ho => hm o ((hos o).2 ho)
    exact hu.not_meets ((h.solves θ hs').2 o ((hos o).1 ho))

/-- Two successes on the same obligations leave tables with the same solutions. -/
theorem Solved.solves_iff {os' : List Obligation} {U2 : VarTable} (h : Solved S T U os U')
    (h2 : Solved S T U os' U2) (hos : ∀ o, o ∈ os' ↔ o ∈ os) (θ : TyVar → Ty) :
    U'.Solves θ ↔ U2.Solves θ := by
  constructor <;> intro hs
  · obtain ⟨hs, hm⟩ := h.solves θ hs
    exact h2.keeps θ hs fun o ho => .inl (hm o ((hos o).1 ho))
  · obtain ⟨hs, hm⟩ := h2.solves θ hs
    exact h.keeps θ hs fun o ho => .inl (hm o ((hos o).2 ho))

namespace Passed
variable (h : Passed S T U os rest U1)
include h

/-- What the passes after it come to, a pass and they come to together. -/
theorem solved (hr : Solved S T U1 rest U') : Solved S T U os U' where
  fit := hr.fit
  solves θ hs := by
    obtain ⟨hs, hrest⟩ := hr.solves θ hs
    obtain ⟨hs, hos⟩ := h.solves θ hs
    exact ⟨hs, fun o ho => (hos o ho).elim (hrest o) id⟩
  keeps θ hs hm := hr.keeps θ (h.keeps θ hs hm) fun o ho => hm o (h.sublist.subset ho)

theorem fails (hr : Fails S T U1 rest) : Fails S T U os := by
  rcases hr with hr | ⟨θ, hs, hm, o, ho, hu⟩
  · refine .inl fun θ hs hm => hr θ ?_ fun o ho => hm o (h.sublist.subset ho)
    exact h.keeps θ hs fun o ho => .inl (hm o ho)
  · obtain ⟨hs, hos⟩ := h.solves θ hs
    exact .inr ⟨θ, hs, fun o ho => (hos o ho).elim (hm o) .inl, o, h.sublist.subset ho, hu⟩

/-- A table in which all that is left waits is where the solver is stuck. -/
theorem fails_of_waits (hw : ∀ o ∈ rest, Waits U1 o.constraint) (hne : rest ≠ []) :
    Fails S T U os := by
  have hu : ∀ o ∈ rest, Undecided (fun v => U1.resolve (.var v)) o.constraint := fun o ho =>
    (hw o ho).undecided h.fit.wf
  obtain ⟨o, ho⟩ := List.exists_mem_of_ne_nil rest hne
  exact h.fails (.inr ⟨_, solves_resolve h.fit.wf, fun o ho => .inr (hu o ho), o, ho, hu o ho⟩)

end Passed

/-! ### The number of passes -/

theorem Passed.weight_lt (h : Passed S T U os rest U1)
    (hlt : rest.countP (binds ·.constraint) < os.countP (binds ·.constraint)) :
    weight rest < weight os := by
  refine Solve.weight_lt h.sublist (fun o ho => ?_) hlt
  obtain ⟨t, trait, hc⟩ := h.waited o ho
  rw [hc]
  rfl

theorem stuck_fails {α : Type} {Q : α → VarTable → Prop} {F : Prop} (hF : F) (o : Obligation) :
    (stuck o : Action VarTable α).Ends U Q (fun _ _ => F) fun _ => F :=
  Action.ends_get_bind <| Action.ends_require_bind (fun _ _ => Action.ends_fail hF) fun _ _ => hF

/-- Passes over obligations all of which wait, or enough of them. -/
theorem passes_meets (hS : NamelessLayouts S) : ∀ (more : Nat) (pending : List Obligation)
    {U : VarTable}, Fit T U → (∀ o ∈ pending, Ordinary o.constraint) →
    (weight pending ≤ more ∨ ∀ o ∈ pending, Waits U o.constraint) →
    (passes S more pending).Ends U (fun _ U' => Solved S T U pending U')
      (fun _ _ => Fails S T U pending) fun _ => Fails S T U pending
  | more, pending, U, hf, ho, hmore => by
    unfold passes
    refine Action.Ends.bind ((pass_meets hS pending hf ho).mono (fun _ _ => id) (fun _ _ => .inl)
      fun _ => .inl) fun rest U1 h => ?_
    split
    · refine Action.ends_pure ⟨h.fit, fun θ hs => ?_, h.keeps⟩
      exact ⟨(h.solves θ hs).1, fun o ho => ((h.solves θ hs).2 o ho).resolve_left nofun⟩
    · rename_i o os
      have hidle : ¬ (o :: os).countP (binds ·.constraint) < pending.countP (binds ·.constraint) →
          ∀ p ∈ o :: os, Waits U1 p.constraint := fun hn => by
        obtain ⟨rfl, hw⟩ := h.progress.resolve_right hn
        exact hw
      have hsame : o :: os = pending → ∀ p ∈ o :: os, Waits U1 p.constraint := fun he =>
        hidle (by rw [he]; exact Nat.lt_irrefl _)
      split
      · -- no pass is left, and this one has bound nothing
        refine stuck_fails (h.fails_of_waits ?_ (List.cons_ne_nil _ _)) o
        rcases hmore with hmore | hw
        · refine hidle fun hlt => ?_
          exact Nat.not_lt_zero _ (Nat.lt_of_lt_of_le (h.weight_lt hlt) hmore)
        · exact hsame (h.idle hw)
      · rename_i more
        split
        · rename_i hlen
          exact stuck_fails (h.fails_of_waits (hsame (h.sublist.eq_of_length hlen))
            (List.cons_ne_nil _ _)) o
        · rename_i hlen
          have hnext : weight (o :: os) ≤ more ∨ ∀ p ∈ o :: os, Waits U1 p.constraint := by
            rcases hmore with hmore | hw
            · by_cases hlt : (o :: os).countP (binds ·.constraint) <
                  pending.countP (binds ·.constraint)
              · exact .inl (Nat.le_of_lt_succ (Nat.lt_of_lt_of_le (h.weight_lt hlt) hmore))
              · exact .inr (hidle hlt)
            · exact absurd (congrArg List.length (h.idle hw)) hlen
          have hord : ∀ p ∈ o :: os, Ordinary p.constraint := fun p hp =>
            ho p (h.sublist.subset hp)
          exact (passes_meets hS more (o :: os) h.fit hord hnext).mono (fun _ _ => h.solved)
            (fun _ _ => h.fails) fun _ => h.fails

/-- What solving comes to, given two passes more than there are fields to be looked up. -/
theorem solve_meets (hS : NamelessLayouts S) (hf : Fit T U) {maxPasses : Nat}
    (ho : ∀ o ∈ os, Ordinary o.constraint)
    (hm : os.countP (isField ·.constraint) + 2 ≤ maxPasses) :
    (solve S maxPasses os).Ends U (fun _ U' => Solved S T U os U') (fun _ _ => Fails S T U os)
      fun _ => Fails S T U os := by
  have hw : weight os ≤ maxPasses - 1 := by
    have := weight_le os
    omega
  unfold solve
  split
  · exact Action.ends_pure ⟨hf, fun _ hs => ⟨hs, nofun⟩, fun _ hs _ => hs⟩
  · exact passes_meets hS (maxPasses - 1) os hf ho (.inl hw)

/-- A solve that succeeds does so on every list with the same obligations. -/
theorem exists_solve_of_mem_iff (hS : NamelessLayouts S) (hf : Fit T U) {maxPasses : Nat}
    {os' : List Obligation} (hos : ∀ o, o ∈ os' ↔ o ∈ os) (ho : ∀ o ∈ os, Ordinary o.constraint)
    (hm : os.countP (isField ·.constraint) + 2 ≤ maxPasses)
    (hm' : os'.countP (isField ·.constraint) + 2 ≤ maxPasses)
    (hs : (solve S maxPasses os).outcome U = (.ok (), U')) :
    ∃ U1, (solve S maxPasses os').outcome U = (.ok (), U1) := by
  have ho' : ∀ o ∈ os', Ordinary o.constraint := fun o h => ho o ((hos o).1 h)
  have h : Solved S T U os U' := (solve_meets hS hf ho hm).of_ok hs
  obtain ⟨_, U1, hs', -⟩ | hn := (solve_meets hS hf ho' hm').ok_or
  · exact ⟨U1, hs'⟩
  · exact absurd hn (h.not_fails hos)

/-- Solving does not depend on the order of the obligations. On a reachable table without named
layouts, and with two passes more than there are fields to look up, a list without casts is solved
without an error exactly if a permutation of it is; and the two tables left resolve all types alike
but for a renaming of the unbound variables. -/
theorem solve_perm (hT : Reachable T) (hn : T.NamelessValues) (hS : NamelessLayouts S)
    {pending pending' : List Obligation} (hp : pending.Perm pending')
    (ho : ∀ o ∈ pending, Ordinary o.constraint) {maxPasses : Nat}
    (hm : pending.countP (isField ·.constraint) + 2 ≤ maxPasses) :
    ((∃ T1, (solve S maxPasses pending).outcome T = (.ok (), T1)) ↔
        ∃ T2, (solve S maxPasses pending').outcome T = (.ok (), T2)) ∧
      ∀ T1 T2, (solve S maxPasses pending).outcome T = (.ok (), T1) →
        (solve S maxPasses pending').outcome T = (.ok (), T2) →
        ∃ ρ : TyVar → TyVar, Set.BijOn ρ { v | T1.Unbound v } { v | T2.Unbound v } ∧
          ∀ t, T2.resolve t = (T1.resolve t).bind fun v => .var (ρ v) := by
  have hf : Fit T T := ⟨hT.wf, hn, rfl⟩
  have hos : ∀ o, o ∈ pending' ↔ o ∈ pending := fun o => hp.mem_iff.symm
  have ho' : ∀ o ∈ pending', Ordinary o.constraint := fun o h => ho o ((hos o).1 h)
  have hm' : pending'.countP (isField ·.constraint) + 2 ≤ maxPasses := by rwa [← hp.countP_eq]
  refine ⟨⟨fun ⟨_, h⟩ => exists_solve_of_mem_iff hS hf hos ho hm hm' h,
    fun ⟨_, h⟩ => exists_solve_of_mem_iff hS hf (fun o => (hos o).symm) ho' hm' hm h⟩,
    fun T1 T2 h1 h2 => ?_⟩
  have hs1 : Solved S T T pending T1 := (solve_meets hS hf ho hm).of_ok h1
  have hs2 : Solved S T T pending' T2 := (solve_meets hS hf ho' hm').of_ok h2
  exact exists_renaming hs1.fit.wf hs2.fit.wf (hs2.fit.size.trans hs1.fit.size.symm)
    (hs1.solves_iff hs2 hos)

end

/-- A scope that declares `p` as the layout `{x: int}`. -/
def plainSetting : Setting where
  scopes := (ScopeTree.initial.declare 0
    ⟨"p", .type, ⟨0, 1⟩, some (.mono (.struct none [("x", .int)]))⟩).2
  traits := .builtin

/-- A field that one order puts off and the other looks up at once; the last two variables become
one class in either, but not with the same root. -/
theorem solve_perm_field :
    let T : VarTable := ((((∅ : VarTable).mint.2.mint.2).mint.2).mint.2).mint.2
    let T1 : VarTable := ⟨#[.root 0 (some (.ptr (.var 1))), .root 0 (some (.con "p")),
      .root 0 (some .int), .link 4, .root 1 none]⟩
    let pending : List Obligation := [
      ⟨.has (.var 1) (.hasField "x" (.var 2) 0), .builtin⟩,
      ⟨.equal (.var 3) (.var 4), .builtin⟩,
      ⟨.equal (.var 4) (.var 3), .builtin⟩,
      ⟨.equal (.var 0) (.ptr (.var 1)), .builtin⟩,
      ⟨.equal (.ptr (.con "p")) (.var 0), .builtin⟩]
    (solve plainSetting 3 pending).outcome T = (.ok (), T1) ∧
      ∃ T2, (solve plainSetting 3 pending.reverse).outcome T = (.ok (), T2) ∧
        ∃ ρ : TyVar → TyVar, Set.BijOn ρ { v | T1.Unbound v } { v | T2.Unbound v } ∧
          ∀ t, T2.resolve t = (T1.resolve t).bind fun v => .var (ρ v) := by
  intro T T1 pending
  have hT : Reachable T :=
    .tail (.tail (.tail (.tail (.tail .refl (.mint _)) (.mint _)) (.mint _)) (.mint _)) (.mint _)
  have hn : T.NamelessValues := fun v t hv => by
    match v, lt_size_of_value? hv with
    | 0, _ | 1, _ | 2, _ | 3, _ | 4, _ => cases hv
  have hS : NamelessLayouts plainSetting := fun x y σ hx _ hσ => by
    match x, ScopeTree.lt_of_symbol? hx with
    | 0, _ =>
      cases hx
      cases hσ
      exact .struct (List.forall_mem_singleton.2 (.con "int"))
  have ho : ∀ o ∈ pending, Ordinary o.constraint := by
    have hvar : ∀ v, (Ty.var v).Nameless := .var
    have hptr : ∀ {t : Ty}, t.Nameless → t.ptr.Nameless := .ptr
    refine List.forall_mem_cons.2 ⟨⟨?_, nofun⟩, List.forall_mem_cons.2 ⟨⟨?_, nofun⟩,
      List.forall_mem_cons.2 ⟨⟨?_, nofun⟩, List.forall_mem_cons.2 ⟨⟨?_, nofun⟩,
        List.forall_mem_singleton.2 ⟨?_, nofun⟩⟩⟩⟩⟩ <;>
      simp [Constraint.types, Trait.types, hvar, hptr, Ty.Nameless.con]
  have h1 : (solve plainSetting 3 pending).outcome T = (.ok (), T1) := by decide +kernel
  have hm : pending.countP (isField ·.constraint) + 2 ≤ 3 := by decide
  obtain ⟨hiff, hρ⟩ := solve_perm hT hn hS (List.reverse_perm pending).symm ho hm
  obtain ⟨T2, h2⟩ := hiff.1 ⟨T1, h1⟩
  exact ⟨h1, T2, h2, hρ T1 T2 h1 h2⟩

end Solve

end TypeInference
