import TypeInference.Proofs.Solve.Origins
import TypeInference.Proofs.Solve.Passes

/-!
# What an unresolved report says

The solver puts obligations off without changing their order, and what it discharges never waits
again: the obligations of the list that wait in any later table are among those put off, in their
order (`pass_waiting`). With enough passes the one that reports has decided nothing, so every
obligation it put off is stuck in the table left, and the report names the first obligation of the
whole list that is (`solve_unresolved`).
-/

namespace TypeInference

/-- The constraint with all its types as far as they are known. -/
def Constraint.resolved (T : VarTable) (c : Constraint) : Constraint :=
  Id.run (c.mapTypesM fun t => pure (T.resolve t))

namespace Solve

open VarTable

variable {S : Setting} {T T' : VarTable} {o : Obligation} {os rest : List Obligation}
  {c : Constraint}

theorem ok_of_checkedResolve_bind {α : Type} {t : Ty} {f : Ty → Except Fault α} {a : α}
    (h : T.checkedResolve t >>= f = .ok a) : f (T.resolve t) = .ok a := by
  obtain ⟨u, hu, hf⟩ := Action.except_bind_eq_ok.1 h
  obtain ⟨ht, -⟩ | ⟨⟨g, hg⟩, -⟩ := T.checkedResolve_cases t
  · rwa [← Except.ok.inj (hu.symm.trans ht)]
  · cases hu.symm.trans hg

theorem resolved_of_mapTypesM {c' : Constraint} (h : c.mapTypesM T.checkedResolve = .ok c') :
    c' = c.resolved T := by
  cases c with
  | equal a b =>
    have hb := ok_of_checkedResolve_bind (ok_of_checkedResolve_bind h :)
    exact (Except.ok.inj hb).symm
  | has t trait =>
    cases trait with
    | hasField | convertibleTo =>
      have hu := ok_of_checkedResolve_bind (ok_of_checkedResolve_bind h :)
      exact (Except.ok.inj hu).symm
    | eq | ord | callable =>
      have ht := ok_of_checkedResolve_bind h
      exact (Except.ok.inj ht).symm

/-! ## Obligations that wait -/

/-- The bound of the trait has an unbound variable as its leader. -/
def Stuck (T : VarTable) (c : Constraint) : Prop :=
  ∃ t trait v, c = .has t trait ∧ T.leader t = .var v ∧ T.Unbound v

theorem Stuck.waits (h : Stuck T c) : Waits T c := by
  obtain ⟨t, trait, v, hc, hv, -⟩ := h
  exact ⟨t, trait, v, hc, hv⟩

/-- A bound that is known stays known. -/
theorem Waits.earlier (h : T.Wf) (h' : T'.Wf) (he : T.Extends T') (hw : Waits T' c) :
    Waits T c := by
  obtain ⟨t, trait, v, rfl, hv⟩ := hw
  by_contra hn
  have hl : ∀ w, T.leader t ≠ .var w := fun w hw => hn ⟨t, trait, w, rfl, hw⟩
  rw [he.leader_eq h h' hl] at hv
  exact hl v hv

/-- What is put off is minted: an unbound variable stands for its bound. -/
theorem Idle.stuck (h : T.Wf) (hi : Idle S T o) : Stuck T o.constraint := by
  obtain ⟨t, trait, v, hc, hv⟩ := hi.waits
  obtain ⟨hr, hn⟩ := h.of_leader_eq_var hv
  have hm : ∀ w, t = .var w → w < T.size := by
    rintro w rfl
    exact ((discharge_looked o).of_ok hi).2.2 w (by rw [hc, Constraint.bound?])
  exact ⟨t, trait, v, hc, hv, Unify.lt_of_leader_eq_var h hm hv, hr, hn⟩

/-- The obligations whose bound is a variable still, in their order. -/
def waiting (T : VarTable) (os : List Obligation) : List Obligation :=
  os.filter fun o => Waits T o.constraint

theorem waiting_eq_self (h : ∀ o ∈ os, Waits T o.constraint) : waiting T os = os :=
  List.filter_eq_self.2 fun o ho => decide_eq_true (h o ho)

theorem waiting_cons_of_neg (h : ¬ Waits T o.constraint) : waiting T (o :: os) = waiting T os :=
  List.filter_cons_of_neg (by simpa using h)

theorem waiting_cons_congr (h : waiting T os = waiting T rest) :
    waiting T (o :: os) = waiting T (o :: rest) := by
  simp only [waiting, List.filter_cons] at h ⊢
  rw [h]

/-- A pass passes on, in their order, all obligations that wait later; it reports none itself. -/
theorem pass_waiting : ∀ (os : List Obligation) {T : VarTable}, T.Wf → (pass S os).Ends T
    (fun rest T' => (T'.Wf ∧ T.Extends T') ∧
      ∀ U, U.Wf → T'.Extends U → waiting U os = waiting U rest)
    (fun e _ => ∀ text origin, e ≠ .unresolvedConstraint text origin) fun _ => True
  | [], T, h => Action.ends_pure ⟨⟨h, .refl h.toLinked⟩, fun _ _ _ => rfl⟩
  | o :: os, T, h => by
    have hlook : (discharge S o).Ends T
        (fun v T' => (T'.Wf ∧ T.Extends T') ∧ Looked T o.constraint v T')
        (fun e _ => ∀ text origin, e ≠ .unresolvedConstraint text origin) fun _ => True := by
      refine (((discharge_ends h o).and (discharge_looked o)).and (discharge_errs o)).mono
        (fun v T' ⟨⟨hT', hv⟩, _⟩ => ⟨hT'.1, hv⟩) (fun e T' ⟨_, he⟩ text origin => ?_)
        fun _ _ => trivial
      obtain he | ⟨t, name, rfl⟩ := he
      · exact he.ne_unresolved text origin
      · nofun
    refine Action.Ends.bind hlook fun v T' ⟨⟨h', he⟩, hv⟩ => ?_
    have hrest : (pass S os).Ends T' (fun rest T'' => (T''.Wf ∧ T'.Extends T'') ∧
        ∀ U, U.Wf → T''.Extends U → waiting U os = waiting U rest) _ _ := pass_waiting os h'
    cases v with
    | discharged =>
      refine hrest.mono (fun rest T'' ⟨⟨h'', he'⟩, hw⟩ => ?_) (fun _ _ => id) fun _ => id
      refine ⟨⟨h'', he.trans he'⟩, fun U hU hle => ?_⟩
      have hn : ¬ Waits U o.constraint := fun hw =>
        hv.1 (hw.earlier h hU (he.trans (he'.trans hle)))
      rw [waiting_cons_of_neg hn, hw U hU hle]
    | deferred =>
      refine Action.Ends.bind hrest fun rest T'' ⟨⟨h'', he'⟩, hw⟩ => Action.ends_pure ?_
      exact ⟨⟨h'', he.trans he'⟩, fun U hU hle => waiting_cons_congr (hw U hU hle)⟩

/-! ## The report -/

/-- In `T` the obligations `os` that wait are all stuck, the first of them is what the report says,
and the others hold. -/
structure Reported (S : Setting) (T : VarTable) (os : List Obligation) (text : String)
    (origin : Origin) : Prop where
  first : ∃ o, (waiting T os).head? = some o ∧ text = (o.constraint.resolved T).text ∧
    origin = o.origin
  stuck : ∀ o ∈ waiting T os, Stuck T o.constraint
  rest : ∀ o ∈ os, o.constraint.Holds S T ∨ Waits T o.constraint

/-- The table grows, and if the action reports an obligation that is unresolved, it is that of
`os` in the table left. -/
abbrev Reports (S : Setting) (x : Action VarTable Unit) (T : VarTable) (os : List Obligation) :
    Prop :=
  x.Ends T (fun _ _ => True) (fun e T' => (T'.Wf ∧ T.Extends T') ∧ ∀ text origin,
    e = .unresolvedConstraint text origin → Reported S T' os text origin) fun _ => True

theorem stuck_reports (h : T.Wf) (hi : ∀ p ∈ o :: os, Idle S T p) :
    Reports S (stuck o) T (o :: os) := by
  refine Action.ends_get_bind (Action.ends_require_bind (fun c hc => ?_) fun _ _ => trivial)
  refine Action.ends_fail ⟨⟨h, .refl h.toLinked⟩, fun text origin he => ?_⟩
  obtain ⟨rfl, rfl⟩ := TypeError.unresolvedConstraint.inj he
  have hw : waiting T (o :: os) = o :: os := waiting_eq_self fun p hp => (hi p hp).waits
  refine ⟨⟨o, by rw [hw, List.head?_cons], by rw [resolved_of_mapTypesM hc], rfl⟩, ?_, ?_⟩
  · rw [hw]
    exact fun p hp => (hi p hp).stuck h
  · exact fun p hp => .inr (hi p hp).waits

/-- What is reported of the obligations that a pass put off is so of those it was given. -/
theorem Reported.earlier {text : String} {origin : Origin} {T1 : VarTable}
    (hr : Reported S T' rest text origin) (h1 : T1.Wf) (h' : T'.Wf) (he : T1.Extends T')
    (hw : waiting T' os = waiting T' rest) (hm : ∀ p ∈ os, p ∈ rest ∨ Met S T p T1) :
    Reported S T' os text origin where
  first := hw ▸ hr.first
  stuck := hw ▸ hr.stuck
  rest p hp := (hm p hp).elim (hr.rest p) fun hm => .inl (hm.later h1 h' he).holds

/-- With enough passes, the one that reports an obligation has decided none. -/
theorem passes_reports : ∀ (more : Nat) (pending : List Obligation) {T : VarTable}, T.Wf →
    weight pending ≤ more → Reports S (passes S more pending) T pending
  | more, pending, T, h, hmore => by
    unfold passes
    refine Action.Ends.bind ((((pass_ends pending h).and (pass_waiting pending h)).and
      (pass_putOff pending T)).mono (fun _ _ => id) (fun e T' he => ?_)
      fun _ _ => trivial) fun rest T1 hpass => ?_
    · obtain ⟨⟨hT', hne⟩, -⟩ := he
      exact ⟨hT', fun text origin hu => absurd hu (hne text origin)⟩
    · obtain ⟨⟨⟨⟨h1, he⟩, hmet⟩, -, hwait⟩, hput⟩ := hpass
      have whole : ∀ {x : Action VarTable Unit}, Reports S x T1 rest →
          x.Ends T1 (fun _ _ => True) (fun e T' => (T'.Wf ∧ T.Extends T') ∧ ∀ text origin,
            e = .unresolvedConstraint text origin → Reported S T' pending text origin)
            fun _ => True := fun hx =>
        hx.mono (fun _ _ => id) (fun e T' hr => ⟨⟨hr.1.1, he.trans hr.1.2⟩, fun text origin hu =>
          (hr.2 text origin hu).earlier h1 hr.1.1 hr.1.2 (hwait T' hr.1.1 hr.1.2) hmet⟩) fun _ => id
      split
      · trivial
      · rename_i o os
        split
        · exact whole (stuck_reports h1 (hput.idle_or.resolve_right fun hlt =>
            Nat.not_lt_zero _ (Nat.lt_of_lt_of_le hlt hmore)))
        · rename_i more
          split
          · rename_i hl
            obtain ⟨rfl, hidle⟩ := hput.idle_of_length hl
            exact whole (stuck_reports h1 hidle)
          · refine whole ?_
            rcases hput.idle_or with hidle | hlt
            · exact (stuck_reports h1 hidle).congr (passes_of_idle more hidle)
            · exact passes_reports more (o :: os) h1
                (Nat.le_of_lt_succ (Nat.lt_of_lt_of_le hlt hmore))

theorem solve_reports (h : T.Wf) {maxPasses : Nat} {pending : List Obligation}
    (hm : pending.countP (isField ·.constraint) + 2 ≤ maxPasses) :
    Reports S (solve S maxPasses pending) T pending := by
  have hw : weight pending ≤ maxPasses - 1 := by
    have := weight_le pending
    omega
  unfold solve
  split
  · trivial
  · exact passes_reports (maxPasses - 1) pending h hw

/-- An unresolved report is exact. If a solve on a reachable table, with two passes more than there
are `HasField` obligations, ends with one, then in the table left the obligation it shows is the
first of the list whose bound has an unbound variable as its leader; it is shown with its types as
they are known there, and with its own origin. Each obligation of the list holds in that table, or
has such a bound itself. -/
theorem solve_unresolved (hT : Reachable T) {maxPasses : Nat} {pending : List Obligation}
    (hm : pending.countP (isField ·.constraint) + 2 ≤ maxPasses) {text : String} {origin : Origin}
    (hs : (solve S maxPasses pending).outcome T =
      (.error (.error (.unresolvedConstraint text origin)), T')) :
    ∃ before o after, pending = before ++ o :: after ∧
      (∀ p ∈ before, ¬ Stuck T' p.constraint) ∧ Stuck T' o.constraint ∧
      text = (o.constraint.resolved T').text ∧ origin = o.origin ∧
      ∀ p ∈ pending, p.constraint.Holds S T' ∨ Stuck T' p.constraint := by
  obtain ⟨-, hr⟩ := (solve_reports (S := S) hT.wf hm).of_error hs
  obtain ⟨⟨o, hfirst, htext, horigin⟩, hstuck, hrest⟩ := hr text origin rfl
  rw [waiting, List.head?_filter, List.find?_eq_some_iff_append] at hfirst
  obtain ⟨ho, before, after, rfl, hbefore⟩ := hfirst
  have stuck_of : ∀ p ∈ before ++ o :: after, Waits T' p.constraint → Stuck T' p.constraint :=
    fun p hp hw => hstuck p (List.mem_filter.2 ⟨hp, decide_eq_true hw⟩)
  refine ⟨before, o, after, rfl, fun p hp hst => ?_, ?_, htext, horigin, fun p hp => ?_⟩
  · simpa [hst.waits] using hbefore p hp
  · exact stuck_of o (by simp) (of_decide_eq_true ho)
  · exact (hrest p hp).imp_right (stuck_of p hp)

/-- Of four obligations the first is decided in the second pass, and the two in the middle are not:
the second is the one that is shown. -/
theorem solve_unresolved_cast :
    let T : VarTable := ((∅ : VarTable).mint.2.mint.2).mint.2
    let T' : VarTable := ⟨#[.root 0 (some .int), .root 0 none, .root 0 none]⟩
    let pending : List Obligation := [
      ⟨.has (.var 0) .ord, .comparison ⟨0, 5⟩⟩,
      ⟨.has (.var 1) (.convertibleTo (.ptr (.var 0))), .cast ⟨6, 14⟩⟩,
      ⟨.has (.var 2) .callable, .callee ⟨15, 18⟩⟩,
      ⟨.equal (.var 0) .int, .letBinding ⟨0, 5⟩ ⟨20, 21⟩⟩]
    (solve pointSetting 2 pending).outcome T =
        (.error (.error (.unresolvedConstraint "ConvertibleTo(?1, *int)" (.cast ⟨6, 14⟩))), T') ∧
      ∃ before o after, pending = before ++ o :: after ∧
        (∀ p ∈ before, ¬ Stuck T' p.constraint) ∧ Stuck T' o.constraint ∧
        "ConvertibleTo(?1, *int)" = (o.constraint.resolved T').text ∧
        .cast ⟨6, 14⟩ = o.origin ∧
        ∀ p ∈ pending, p.constraint.Holds pointSetting T' ∨ Stuck T' p.constraint := by
  intro T T' pending
  have hT : Reachable T := .tail (.tail (.tail .refl (.mint _)) (.mint _)) (.mint _)
  have hs : (solve pointSetting 2 pending).outcome T =
      (.error (.error (.unresolvedConstraint "ConvertibleTo(?1, *int)" (.cast ⟨6, 14⟩))), T') := by
    decide +kernel
  exact ⟨hs, solve_unresolved hT (by decide) hs⟩

end Solve

end TypeInference
