import Mathlib.Data.List.Forall2
import TypeInference.Proofs.Check.Faultless
import TypeInference.Proofs.Check.Obligations
import TypeInference.Proofs.Program.Positions
import TypeInference.Proofs.Solve.Origins

/-!
# Errors point into the statement that failed

`Pointed ps`: what the walk has queued, and every demand that it has noted, has an origin that
points at one of the positions `ps`. All operations keep this if `ps` are the positions of the
statement (`pointing_operations`), and a function declaration, which puts the queue aside and takes
it up again, does so too (`pointing_rules`). An error raised by the walk itself points at a node,
one raised by a solve carries the origin of a queued obligation (`solve_errs`): both point at `ps`.

Between top-level statements the queue is empty, so no obligation of one reaches the solve of
another (`attributed_outcomes`).
-/

namespace TypeInference

/-- The origin points at one of the positions. -/
def Origin.PointsInto (ps : List Span) (o : Origin) : Prop := ∃ p, o.span? = some p ∧ p ∈ ps

/-- The error points at one of the positions. -/
def TypeError.PointsInto (ps : List Span) (e : TypeError) : Prop := ∃ p, e.span? = some p ∧ p ∈ ps

namespace TypeError

variable {ps : List Span} {e : TypeError} {o : Origin}

theorem PointsInto.of_origin? (h : o.PointsInto ps) (he : e.origin? = some o) :
    e.PointsInto ps := by
  obtain ⟨p, hp, hm⟩ := h
  exact ⟨p, (span?_eq_of_origin? he).trans hp, hm⟩

theorem PointsInto.ne_builtin (h : e.PointsInto ps) : e.origin? ≠ some .builtin := by
  obtain ⟨p, hp, -⟩ := h
  intro he
  rw [span?_eq_of_origin? he] at hp
  cases hp

end TypeError

namespace Check

/-! ## The invariant -/

/-- What is queued and what was demanded so far points at `ps` (module doc). -/
structure Pointed (ps : List Span) (s : CheckState) : Prop where
  wf : s.table.Wf
  queue : ∀ o ∈ s.queue, o.origin.PointsInto ps
  demands : ∀ o ∈ Event.demands s.events, o.origin.PointsInto ps

/-- The walk over nodes whose positions are among `ps`. -/
def pointing (ps : List Span) : Invariant where
  inv := Pointed ps
  later s s' := s'.returns = s.returns
  failed _ e s' := e.PointsInto ps ∧ Pointed ps s'
  fault _ := True
  goodVar _ _ := True
  ok _ := Node.Within ps
  okScope _ := True
  okPos p := p ∈ ps

section
variable {ps : List Span} {s s' : CheckState} {owner : Option String}

theorem pointing_laws : Laws (pointing ps) where
  later_refl _ := rfl
  later_trans h h' := h'.trans h
  later_returns h := h
  later_good _ _ := trivial
  later_failed _ h := h
  fail h he := ⟨he, h⟩
  pos hok hp := hok _ hp

namespace Pointed

theorem onTable (h : Pointed ps s) {T : VarTable} (hT : T.Wf) :
    Pointed ps { s with table := T } :=
  ⟨hT, h.queue, h.demands⟩

theorem note (h : Pointed ps s) {e : Event}
    (he : ∀ o ∈ Event.demands [e], o.origin.PointsInto ps) :
    Pointed ps { s with events := e :: s.events } := by
  refine ⟨h.wf, h.queue, ?_⟩
  rw [← List.singleton_append, Event.demands_append]
  exact List.forall_mem_append.2 ⟨he, h.demands⟩

theorem demand (h : Pointed ps s) {c : Constraint} {o : Origin} (ho : o.PointsInto ps) :
    Pointed ps { s with
      events := .demand ⟨c, o⟩ :: s.events, queue := s.queue ++ [⟨c, o⟩] } := by
  have hn := h.note (e := .demand ⟨c, o⟩) (List.forall_mem_singleton.2 ho)
  exact ⟨h.wf, List.forall_mem_append.2 ⟨h.queue, List.forall_mem_singleton.2 ho⟩, hn.demands⟩

end Pointed

/-! ## Operations -/

theorem points_instantiate {σ : Scheme} (h : Pointed ps s) :
    (pointing ps).Keeps s (onTable (instantiate σ)) fun _ _ => True :=
  onTable_ends ((h.wf.instantiate_ends σ).mono (fun _ _ hT => ⟨h.onTable hT.1, rfl, trivial⟩)
    (fun _ _ => False.elim) fun _ _ => trivial)

theorem points_note {e : Event} (h : Pointed ps s) (he : Event.demands [e] = []) :
    (pointing ps).Keeps s (note e) fun _ _ => True := by
  refine note_ends ⟨h.note ?_, rfl, trivial⟩
  rw [he]
  exact nofun

theorem pointing_basics : Basics (pointing ps) where
  toLaws := pointing_laws
  fault _ := trivial
  goodVar _ _ := trivial
  okScope _ := trivial
  fresh h := fresh_ends ⟨h.onTable h.wf.mint, rfl, trivial⟩
  demand h ho := demand_ends ⟨h.demand ho, rfl, trivial⟩
  record h := record_ends ⟨⟨h.wf, h.queue, h.demands⟩, rfl, trivial⟩
  slot h := symbolScheme_ends (fun _ hσ => ⟨h, rfl, hσ⟩) (fun _ hy _ =>
    ⟨⟨h.wf.mint, h.queue, h.demands⟩, rfl,
      (ScopeTree.scheme?_setScheme_of_symbol hy _ _).trans (if_pos rfl)⟩) fun _ _ => trivial

theorem pointing_operations : Operations (pointing ps) where
  toBasics := pointing_basics
  note h he _ := points_note h he
  use e he h := by
    have L : Basics (pointing ps) := pointing_basics
    refine L.bind ⟨h, rfl⟩ (L.slot h) fun σ s1 h1 _ _ => ?_
    refine L.bind h1 (points_instantiate h1.inv) fun t s2 h2 _ _ => ?_
    refine L.bind h2 (points_note h2.inv ?_) fun _ s3 h3 _ _ => L.pure h3 trivial
    obtain rfl | rfl := he <;> rfl

/-- An error of the solver carries the origin of an obligation of the queue. -/
theorem points_solveQueue {opts : CheckOptions} (h : Pointed ps s) :
    (pointing ps).Keeps s (solveQueue opts) fun _ s' => s'.queue = [] := by
  have hs := (Solve.solve_ends (S := ⟨s.scopes, .builtin⟩) h.wf opts.maxPasses s.queue).and
    (solve_errs opts.maxPasses s.queue s.table)
  refine solveQueue_ends (hs.mono (fun _ T hT => ?_) (fun e T hT => ?_) fun _ _ => trivial)
  · exact ⟨⟨hT.1.1.1, nofun, h.demands⟩, rfl, rfl⟩
  · obtain ⟨⟨hT, -⟩, o, ho, he⟩ := hT
    exact ⟨.of_origin? (h.queue o ho) he, hT, nofun, h.demands⟩

/-! ## Functions -/

/-- The head of a function points at the function or at a formal. -/
theorem points_announce {name : String} {formals : List (Formal Span)} {pos : Span}
    {scope bodyScope : ScopeId} (h : (pointing ps).At owner s) (hp : pos ∈ ps)
    (hfs : ∀ f ∈ formals, f.pos ∈ ps) :
    (pointing ps).Keeps s (announce name formals pos scope bodyScope) fun _ _ => True := by
  have L : Operations (pointing ps) := pointing_operations
  unfold announce
  refine L.bind h (L.bindFormals formals h hfs) fun params s1 h1 _ _ => ?_
  refine L.bind h1 (L.lookup h1.inv hp) fun x s2 h2 _ _ => ?_
  refine L.bind h2 (L.fresh h2.inv) fun result s3 h3 _ _ => ?_
  refine L.bind h3 (L.slot h3.inv) fun σ s4 h4 _ _ => ?_
  refine L.bind h4 (points_instantiate h4.inv) fun t s5 h5 _ _ => ?_
  refine L.bind h5 (L.demand h5.inv ⟨pos, rfl, hp⟩) fun _ s6 h6 _ _ => ?_
  exact L.bind h6 (L.note h6.inv rfl rfl) fun _ s7 h7 _ _ => L.pure h7 trivial

theorem points_generalize {name : String} {scope : ScopeId} {x : SymbolId} {t : Ty}
    (h : Pointed ps s) :
    (pointing ps).Keeps s (generalizeFunction name scope x t) fun _ _ => True := by
  refine ends_generalizeFunction.mono ?_ (fun _ _ => False.elim) fun _ => id
  rintro _ s' (rfl | ⟨env, -, rfl⟩)
  · exact ⟨h, rfl, trivial⟩
  · exact ⟨⟨h.wf, h.queue, h.demands⟩, rfl, trivial⟩

theorem pointing_pointwise : Pointwise (pointing ps) where
  toBasics := pointing_basics
  later_of_returns h := h
  failed_anew h := h
  opened h := ⟨h.wf, h.queue, h.demands⟩
  emptied h := ⟨h.wf, nofun, h.demands⟩
  resumed h h' := ⟨h'.wf, h.queue, h'.demands⟩
  leave h := points_note h rfl
  generalize h := points_generalize h
  solve h := points_solveQueue h

/-- What a walk over nodes of a statement queues and reports points into it. -/
theorem pointing_rules (opts : CheckOptions) : Rules opts (pointing ps) :=
  pointing_operations.rules opts fun h hok hb hbody =>
    have ⟨hp, hfs⟩ := List.forall_mem_cons.1 hok
    pointing_pointwise.function h hb
      (fun _ h' => points_announce h' hp (List.forall_mem_map.1 hfs)) hbody

end

end Check

/-! ## Top-level statements -/

/-- The error of a statement that failed points at one of the positions, and so does all that was
demanded on the way. -/
structure Outcome.Attributed (ps : List Span) (o : Outcome) : Prop where
  error : ∀ e, o.verdict = .error e → e.PointsInto ps
  demands : ∀ d ∈ Event.demands o.events, d.origin.PointsInto ps

namespace Check

section
variable {opts : CheckOptions} {s s' : CheckState}

/-- What one top-level statement comes to is attributed to it, if the queue was empty; it leaves the
queue empty, whether it succeeds or fails. -/
theorem attributed_outcome {t : Stmt Span} {o : Outcome} (h : s.table.Wf) (hq : s.queue = [])
    (ho : outcome opts t s = .ok (o, s')) :
    o.Attributed t.spans ∧ s'.table.Wf ∧ s'.queue = [] := by
  have h0 : Pointed t.spans { s with events := [] } := by
    refine ⟨h, ?_, List.forall_mem_nil _⟩
    show ∀ o ∈ s.queue, _
    rw [hq]
    exact List.forall_mem_nil _
  have hend : (pointing t.spans).Keeps _ (topLevel opts t) fun _ s' => s'.queue = [] :=
    pointing_pointwise.topLevel (pointing_rules opts) (t.every_within _) ⟨h0, rfl⟩
  have hdemands : ∀ {s1 : CheckState}, Pointed t.spans s1 →
      ∀ d ∈ Event.demands s1.events.reverse, d.origin.PointsInto t.spans := fun h1 d hd =>
    h1.demands d (by simpa [Event.demands] using hd)
  obtain ⟨τ, rfl, h1, -, hq1⟩ | ⟨e, s1, rfl, rfl, he, h1⟩ := outcome_of_ends hend ho
  · refine ⟨⟨fun e he => ?_, hdemands h1⟩, h1.wf, hq1⟩
    cases he
  · refine ⟨⟨fun e' he' => ?_, hdemands h1⟩, h1.wf, rfl⟩
    exact Except.error.inj he' ▸ he

theorem attributed_outcomes : ∀ (ts : List (Stmt Span)) {s s' : CheckState} {os : List Outcome},
    s.table.Wf → s.queue = [] → outcomes opts ts s = .ok (os, s') →
    List.Forall₂ (fun t o => o.Attributed t.spans ∧ ∃ s s', outcome opts t s = .ok (o, s')) ts os
  | [], s, s', os, _, _, hos => by
    cases hos
    exact .nil
  | t :: ts, s, s', os, h, hq, hos => by
    obtain ⟨⟨o, s1⟩, ho, hos⟩ := Action.except_bind_eq_ok.1 hos
    obtain ⟨⟨os', s2⟩, hos', he⟩ := Action.except_bind_eq_ok.1 hos
    cases he
    obtain ⟨ha, h1, hq1⟩ := attributed_outcome h hq ho
    exact .cons ⟨ha, s, s1, ho⟩ (attributed_outcomes ts h1 hq1 hos')

end

end Check

/-! ## Programs -/

/-- The error of a statement that failed. -/
def Outcome.error? (o : Outcome) : Option TypeError :=
  match o.verdict with
  | .error e => some e
  | .ok _ => none

theorem Outcome.error?_eq_some {o : Outcome} {e : TypeError} :
    o.error? = some e ↔ o.verdict = .error e := by
  unfold error?
  cases o.verdict <;> simp

namespace CheckRun

variable {R : CheckRun}

/-- The top-level statements that failed, in order, each with its error. -/
def failures (R : CheckRun) (P : Program Span) : List (Stmt Span × TypeError) :=
  (P.zip R.outcomes).filterMap fun q => q.2.error?.map (q.1, ·)

theorem mem_failures {P : Program Span} {f : Stmt Span × TypeError} :
    f ∈ R.failures P ↔ ∃ o, (f.1, o) ∈ P.zip R.outcomes ∧ o.verdict = .error f.2 := by
  simp only [failures, List.mem_filterMap, Option.map_eq_some_iff, Outcome.error?_eq_some]
  constructor
  · rintro ⟨⟨t, o⟩, hm, e, he, rfl⟩
    exact ⟨o, hm, he⟩
  · rintro ⟨o, hm, he⟩
    exact ⟨(f.1, o), hm, f.2, he, rfl⟩

/-- A run reports one error for each statement that failed, in their order. -/
theorem errors_eq_map_failures {P : Program Span} (h : P.length = R.outcomes.length) :
    R.errors = (R.failures P).map Prod.snd := by
  have herr : R.errors = R.outcomes.filterMap Outcome.error? := rfl
  have hz : R.outcomes = (P.zip R.outcomes).map Prod.snd :=
    (List.map_snd_zip (Nat.le_of_eq h.symm)).symm
  rw [herr, hz, List.filterMap_map, failures, List.map_filterMap]
  congr 1
  funext q
  simp

theorem resultType_eq_none : R.resultType = none ↔
    R.outcomes = [] ∨ ∃ o e, R.outcomes.getLast? = some o ∧ o.verdict = .error e := by
  unfold resultType
  cases hl : R.outcomes.getLast? with
  | none => simpa using List.getLast?_eq_none_iff.1 hl
  | some o =>
    have hne : R.outcomes ≠ [] := fun he => by simp [he] at hl
    cases hv : o.verdict <;> simp [hne, hv, Except.toOption]

theorem of_result {r : CheckResult} (h : R.result = .ok r) :
    r.errors = R.errors ∧ r.resultType = R.resultType := by
  obtain ⟨_, -, h⟩ := Action.except_bind_eq_ok.1 h
  obtain ⟨_, -, h⟩ := Action.except_bind_eq_ok.1 h
  obtain ⟨_, -, h⟩ := Action.except_bind_eq_ok.1 h
  obtain rfl := Except.ok.inj h
  exact ⟨rfl, rfl⟩

end CheckRun

/-- Each outcome of a run over the bound program is that of a bound statement, and is attributed to
the statement as it was written. -/
theorem Program.outcomes_attributed {opts : CheckOptions} {P : Program Span} {R : CheckRun}
    (h : P.bind.1.checkRun opts P.bind.2 = .ok R) :
    List.Forall₂ (fun t o => ∃ s s', Check.outcome opts t s = .ok (o, s')) P.bind.1 R.outcomes ∧
      List.Forall₂ (fun t o => o.Attributed t.spans) P R.outcomes := by
  obtain ⟨⟨os, s⟩, hos, h⟩ := Action.except_bind_eq_ok.1 h
  cases h
  have ha := Check.attributed_outcomes P.bind.1 VarTable.wf_empty rfl hos
  refine ⟨ha.imp fun _ _ => And.right, ?_⟩
  have hspans : List.Forall₂ (fun ps o => o.Attributed ps) (P.bind.1.map Stmt.spans) os :=
    List.forall₂_map_left_iff.2 (ha.imp fun _ _ => And.left)
  rw [P.map_spans_bind] at hspans
  exact List.forall₂_map_left_iff.1 hspans

/-- Errors are attributed to the statement that caused them. The check of every program that can be
checked comes to its end; its errors are those of the top-level statements that failed, one for
each, in their order. Each error points at a node, a formal or a callee's name inside its own
statement, and so does all that is demanded while the statement is checked; none has the origin that
no syntax produced. There is no result type exactly if there is no statement or the last one failed.
-/
theorem Program.errors_attributed (opts : CheckOptions) {P : Program Span} (hP : P.Checkable) :
    ∃ R r, P.bind.1.checkRun opts P.bind.2 = .ok R ∧ P.bind.1.check opts P.bind.2 = .ok r ∧
      List.Forall₂ (fun t o => ∃ s s', Check.outcome opts t s = .ok (o, s')) P.bind.1
        R.outcomes ∧
      List.Forall₂ (fun t o => ∀ d ∈ Event.demands o.events, d.origin.PointsInto t.spans) P
        R.outcomes ∧
      r.errors = (R.failures P).map Prod.snd ∧
      (∀ f ∈ R.failures P, f.2.PointsInto f.1.spans ∧ f.2.origin? ≠ some .builtin) ∧
      (r.resultType = none ↔
        P = [] ∨ ∃ o e, R.outcomes.getLast? = some o ∧ o.verdict = .error e) := by
  obtain ⟨hF, hstamps⟩ := P.bind_inRange hP
  obtain ⟨os, s, hos, hs⟩ :=
    Check.outcomes_rested hF opts P.bind.1 hstamps (Check.rested_start hF)
  obtain ⟨r, hr⟩ := hs.result_eq_ok os
  have hR : P.bind.1.checkRun opts P.bind.2 = .ok ⟨os, s⟩ :=
    Action.except_bind_eq_ok.2 ⟨(os, s), hos, rfl⟩
  obtain ⟨hrun, hattr⟩ := Program.outcomes_attributed hR
  obtain ⟨herrors, htype⟩ := CheckRun.of_result hr
  have hlen := hattr.length_eq
  refine ⟨⟨os, s⟩, r, hR, Action.except_bind_eq_ok.2 ⟨_, hR, hr⟩, hrun,
    hattr.imp fun _ _ h => h.demands, ?_, fun f hf => ?_, ?_⟩
  · rw [herrors, CheckRun.errors_eq_map_failures hlen]
  · obtain ⟨o, hm, he⟩ := CheckRun.mem_failures.1 hf
    have hp := ((List.forall₂_iff_zip.1 hattr).2 hm).error _ he
    exact ⟨hp, hp.ne_builtin⟩
  · rw [htype, CheckRun.resultType_eq_none, ← List.length_eq_zero_iff, ← hlen,
      List.length_eq_zero_iff]

/-- `let a = 1; a(2); fun f(x) { fun g(y) { x + y }; g(true) }; a; b = true` -/
def blameSample : Program Span := Program.number 0 [
  .varDecl "a" none (.literal (.int 1) none) none 0 none,
  .expr (.call "a" none [.literal (.int 2) none] none 0),
  .funDecl "f" [⟨"x", none⟩] (some (.block
    [.funDecl "g" [⟨"y", none⟩] (some (.block [] (some (.binary .add
      (.var "x" none 0 none) (.var "y" none 0 none) none)) none 0)) none none 0 0]
    (some (.call "g" none [.literal (.bool true) none] none 0)) none 0)) none none 0 0,
  .expr (.var "a" none 0 none),
  .assign (.var "b" none 0 none) (.literal (.bool true) none) none]

/-- A call of a number, an argument of a nested function that is refused when the outer one ends,
and a name that is not bound. -/
theorem errors_attributed_blameSample : blameSample.Checkable ∧ ∃ R r,
    blameSample.bind.1.checkRun ⟨1⟩ blameSample.bind.2 = .ok R ∧
      blameSample.bind.1.check ⟨1⟩ blameSample.bind.2 = .ok r ∧
      r.errors.map TypeError.span? = [some ⟨4, 5⟩, some ⟨11, 12⟩, some ⟨18, 19⟩] ∧
      r.errors = (R.failures blameSample).map Prod.snd ∧
      (∀ f ∈ R.failures blameSample,
        f.2.PointsInto f.1.spans ∧ f.2.origin? ≠ some .builtin) ∧
      (r.resultType = none ↔
        blameSample = [] ∨ ∃ o e, R.outcomes.getLast? = some o ∧ o.verdict = .error e) := by
  have h : blameSample.Checkable := by decide +kernel
  have hspans : (blameSample.bind.1.check ⟨1⟩ blameSample.bind.2).toOption.map
      (fun r => r.errors.map TypeError.span?) =
        some [some ⟨4, 5⟩, some ⟨11, 12⟩, some ⟨18, 19⟩] := by decide +kernel
  obtain ⟨R, r, hR, hr, -, -, herrors, hfailures, htype⟩ := Program.errors_attributed ⟨1⟩ h
  rw [hr] at hspans
  exact ⟨h, R, r, hR, hr, Option.some.inj hspans, herrors, hfailures, htype⟩

end TypeInference
