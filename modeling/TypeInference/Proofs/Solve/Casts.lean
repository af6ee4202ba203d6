import TypeInference.Proofs.Solve.Unresolved

/-!
# Casts decided too early

The solver decides a trait as soon as the outermost form of its bound is known. The trait table
answers for a cast by comparing whole types, so its answer can hang on variables below that form, or
in the target, which an obligation further down the list makes known.

A look at an obligation that binds nothing leaves the table, so a list with and without it go on
alike until it is refused (`passes_moved`). Hence a cast that is refused where it stands in the list
and not at its end is one whose verdict was overturned in between (`solve_cast_last`), and there are
such casts (`cast_refused_early`).
-/

namespace TypeInference

namespace Solve

open VarTable

variable {S : Setting} {T T' T1 T2 : VarTable} {o : Obligation}
  {os xs ys xs' ys' rest : List Obligation} {t u : Ty} {v : Verdict}

/-! ## Passes in parts -/

theorem pass_append (S : Setting) (xs ys : List Obligation) : pass S (xs ++ ys) = do
    let xs' ← pass S xs
    let ys' ← pass S ys
    return xs' ++ ys' := by
  induction xs with
  | nil => exact (bind_pure (pass S ys)).symm
  | cons o xs ih =>
    rw [List.cons_append, pass_cons, pass_cons, ih]
    refine Eq.trans ?_ (bind_assoc (discharge S o) _ _).symm
    refine congrArg (discharge S o >>= ·) (funext fun v => ?_)
    cases v with
    | discharged => rfl
    | deferred => simp only [bind_assoc, pure_bind, List.cons_append]

theorem pass_append_eq_ok : (pass S (xs ++ ys)).outcome T = (.ok rest, T') ↔
    ∃ xs' T1 ys', (pass S xs).outcome T = (.ok xs', T1) ∧
      (pass S ys).outcome T1 = (.ok ys', T') ∧ rest = xs' ++ ys' := by
  rw [pass_append, Action.outcome_bind_eq_ok]
  refine exists_congr fun xs' => exists_congr fun T1 => ?_
  rw [Action.outcome_bind_eq_ok]
  constructor
  · rintro ⟨hx, ys', T2, hy, hr⟩
    cases hr
    exact ⟨ys', hx, hy, rfl⟩
  · rintro ⟨ys', hx, hy, rfl⟩
    exact ⟨hx, ys', T', hy, rfl⟩

/-- What is left of a pass for an obligation that was looked at. -/
def kept (o : Obligation) : Verdict → List Obligation
  | .discharged => []
  | .deferred => [o]

theorem pass_singleton_eq_ok : (pass S [o]).outcome T = (.ok rest, T') ↔
    ∃ v, (discharge S o).outcome T = (.ok v, T') ∧ rest = kept o v := by
  rw [pass_cons, Action.outcome_bind_eq_ok]
  constructor
  · rintro ⟨v, T1, hd, hr⟩
    cases v <;> cases hr <;> exact ⟨_, hd, rfl⟩
  · rintro ⟨v, hd, rfl⟩
    cases v <;> exact ⟨_, T', hd, rfl⟩

/-! ## Obligations that bind nothing -/

/-- The obligation was refused in `T`, which it does not hold in. -/
structure Refused (S : Setting) (T : VarTable) (o : Obligation) (e : TypeError) : Prop where
  not_holds : ¬ o.constraint.Holds S T
  error : ∃ t trait, o.constraint = .has t trait ∧
    e = .traitNotSatisfied (T.resolve t) trait.name o.origin

theorem decideTrait_binding_nothing (h : T.Wf) {trait : Trait} (hb : binds (.has t trait) = false)
    (origin : Origin) : (decideTrait S origin (T.leader t) trait).Ends T
      (fun b T' => T' = T ∧ (b = false → ¬ (Constraint.has t trait).Holds S T))
      (fun _ _ => False) fun _ => True := by
  cases trait with
  | eq | ord => exact Action.ends_pure ⟨rfl, fun hf hh => Bool.eq_false_iff.1 hf hh⟩
  | callable =>
    exact Action.ends_pure ⟨rfl, fun hf hh => Bool.eq_false_iff.1 hf (isFunction_iff.2 hh)⟩
  | hasField field u scope => cases hb
  | convertibleTo u =>
    refine Action.ends_get_bind ?_
    obtain ⟨ha, -⟩ | ⟨⟨f, ha⟩, -⟩ := T.checkedResolve_cases (T.leader t)
    · obtain ⟨hb, -⟩ | ⟨⟨f, hb⟩, -⟩ := T.checkedResolve_cases u
      · rw [ha, hb]
        refine Action.ends_pure ⟨rfl, fun hf hh => ?_⟩
        rw [h.resolve_leader] at hf
        exact Bool.eq_false_iff.1 hf hh
      · rw [ha, hb]
        trivial
    · rw [ha]
      trivial

theorem refuse_ends {α : Type} (h : T.Wf) (t : Ty) (trait : Trait) (origin : Origin) :
    (refuse origin (T.leader t) trait : Action VarTable α).Ends T (fun _ _ => False)
      (fun e T' => T' = T ∧ e = .traitNotSatisfied (T.resolve t) trait.name origin)
      fun _ => True := by
  refine Action.ends_get_bind ?_
  obtain ⟨ha, -⟩ | ⟨⟨f, ha⟩, -⟩ := T.checkedResolve_cases (T.leader t)
  · rw [ha, h.resolve_leader]
    exact Action.ends_fail ⟨rfl, rfl⟩
  · rw [ha]
    trivial

/-- A look at an obligation that binds nothing leaves the table, also when it is refused. -/
theorem discharge_binding_nothing (h : T.Wf) (hb : binds o.constraint = false) :
    (discharge S o).Ends T (fun _ T' => T' = T) (fun e T' => T' = T ∧ Refused S T o e)
      fun _ => True := by
  obtain ⟨c, origin⟩ := o
  cases c with
  | equal a b => cases hb
  | has t trait =>
    refine Action.ends_get_bind (Action.ends_require_bind (fun l hl => ?_) fun _ _ => trivial)
    obtain ⟨ht, -⟩ | ⟨⟨f, hf⟩, -⟩ := T.checkedLeader_cases t
    · obtain rfl : T.leader t = l := Except.ok.inj (ht.symm.trans hl)
      split
      · exact Action.ends_pure rfl
      · refine Action.Ends.bind ((decideTrait_binding_nothing h hb origin).mono (fun _ _ => id)
          (fun _ _ => False.elim) fun _ => id) fun b T' hd => ?_
        obtain ⟨rfl, hd⟩ := hd
        split
        · exact Action.ends_pure rfl
        · rename_i hn
          refine (refuse_ends h t trait origin).mono (fun _ _ => False.elim)
            (fun e T'' he => ⟨he.1, hd (Bool.eq_false_iff.2 hn), t, trait, rfl, he.2⟩) fun _ => id
    · rw [hf] at hl
      cases hl

/-! ## One pass after the other -/

theorem stuck_reports_unresolved {α : Type} (o : Obligation) :
    (stuck o : Action VarTable α).Ends T (fun _ _ => False)
      (fun e _ => ∃ text origin, e = .unresolvedConstraint text origin) fun _ => True :=
  Action.ends_get_bind <| Action.ends_require_bind
    (fun _ _ => Action.ends_fail ⟨_, _, rfl⟩) fun _ _ => trivial

theorem passes_nil (more : Nat) : (passes S more []).outcome T = (.ok (), T) := by
  unfold passes
  rfl

/-- What stops the first pass stops them all. -/
theorem passes_of_pass_error {more : Nat} {e : Stop} (h : (pass S os).outcome T = (.error e, T')) :
    (passes S more os).outcome T = (.error e, T') := by
  unfold passes
  rw [Action.outcome_bind, h]

/-- Passes that succeed, taken apart behind the first. -/
theorem passes_eq_ok (h : T.Wf) {more : Nat} (hp : (passes S more os).outcome T = (.ok (), T')) :
    ∃ rest T1, (pass S os).outcome T = (.ok rest, T1) ∧ T1.Extends T' ∧
      ∀ m, more = m + 1 → (passes S m rest).outcome T1 = (.ok (), T') := by
  unfold passes at hp
  obtain ⟨rest, T1, hpass, hp⟩ := Action.outcome_bind_eq_ok.1 hp
  have h1 : T1.Wf := ((pass_ends os h).of_ok hpass).1.1
  refine ⟨rest, T1, hpass, ?_⟩
  cases rest with
  | nil =>
    obtain rfl : T1 = T' := congrArg Prod.snd hp
    exact ⟨.refl h1.toLinked, fun m _ => passes_nil m⟩
  | cons o os' =>
    cases more with
    | zero => exact ((stuck_reports_unresolved o).of_ok hp).elim
    | succ m =>
      dsimp only at hp
      split at hp
      · exact ((stuck_reports_unresolved o).of_ok hp).elim
      · refine ⟨((passes_ends m _ h1).of_ok hp).1.2, fun m' hm => ?_⟩
        obtain rfl := Nat.succ.inj hm
        exact hp

/-- Passes that end with an error, none that the solver reports for want of progress: it comes up in
the first of them, or in those after it. -/
theorem passes_eq_error {more : Nat} {e : TypeError}
    (he : ∀ text origin, e ≠ .unresolvedConstraint text origin)
    (hp : (passes S more os).outcome T = (.error (.error e), T')) :
    (pass S os).outcome T = (.error (.error e), T') ∨
      ∃ rest T1 m, (pass S os).outcome T = (.ok rest, T1) ∧ more = m + 1 ∧
        (passes S m rest).outcome T1 = (.error (.error e), T') := by
  unfold passes at hp
  rw [Action.outcome_bind] at hp
  have hstuck : ∀ {o T1}, (stuck o : Action VarTable Unit).outcome T1 ≠
      (.error (.error e), T') := by
    intro o T1 h
    obtain ⟨text, origin, hu⟩ := (stuck_reports_unresolved o).of_error h
    exact he text origin hu
  rcases hpass : (pass S os).outcome T with ⟨e' | rest, T1⟩
  · rw [hpass] at hp
    cases hp
    exact .inl rfl
  · rw [hpass] at hp
    cases rest with
    | nil => cases hp
    | cons o os' =>
      cases more with
      | zero => exact absurd hp hstuck
      | succ m =>
        dsimp only at hp
        split at hp
        · exact absurd hp hstuck
        · exact .inr ⟨_, T1, m, rfl, rfl, hp⟩

/-! ## One obligation moved to the end -/

/-- The obligation holds, and its bound is known. -/
structure Held (S : Setting) (T : VarTable) (o : Obligation) : Prop where
  holds : o.constraint.Holds S T
  decided : ¬ Waits T o.constraint

theorem Held.later (ho : Held S T o) (h : T.Wf) (h' : T'.Wf) (he : T.Extends T') : Held S T' o :=
  ⟨ho.holds.mono h h' he, fun hw => ho.decided (hw.earlier h h' he)⟩

/-- Around a look that leaves the table, a pass does what it does without it. -/
theorem pass_insert (hx : (pass S xs).outcome T = (.ok xs', T1))
    (hy : (pass S ys).outcome T1 = (.ok ys', T2))
    (hd : (discharge S o).outcome T1 = (.ok v, T1)) :
    (pass S (xs ++ o :: ys)).outcome T = (.ok (xs' ++ (kept o v ++ ys')), T2) := by
  have ho : (pass S [o]).outcome T1 = (.ok (kept o v), T1) := pass_singleton_eq_ok.2 ⟨v, hd, rfl⟩
  have hoy : (pass S (o :: ys)).outcome T1 = (.ok (kept o v ++ ys'), T2) :=
    pass_append_eq_ok.2 ⟨kept o v, T1, ys', ho, hy, rfl⟩
  exact pass_append_eq_ok.2 ⟨xs', T1, kept o v ++ ys', hx, hoy, rfl⟩

/-- If it is refused there, so is the pass. -/
theorem pass_insert_error {e : Stop} (hx : (pass S xs).outcome T = (.ok xs', T1))
    (hd : (discharge S o).outcome T1 = (.error e, T2)) :
    (pass S (xs ++ o :: ys)).outcome T = (.error e, T2) := by
  rw [pass_append, Action.outcome_bind, hx]
  dsimp only
  rw [Action.outcome_bind, pass_cons, Action.outcome_bind, hd]

theorem held_of_discharged (h : T.Wf) (hb : binds o.constraint = false)
    (hd : (discharge S o).outcome T = (.ok .discharged, T1)) : Held S T o := by
  obtain rfl : T1 = T := (discharge_binding_nothing h hb).of_ok hd
  exact ⟨((discharge_ends h o).of_ok hd).2 rfl, ((discharge_looked o).of_ok hd).1⟩

theorem Held.verdict (ho : Held S T o) (hd : (discharge S o).outcome T = (.ok v, T1)) :
    v = .discharged := by
  cases v with
  | discharged => rfl
  | deferred => exact absurd ((discharge_looked o).of_ok hd).2.1 ho.decided

/-- Passes that succeed do so with an obligation more that holds already. -/
theorem passes_held (h : T.Wf) (hb : binds o.constraint = false) (ho : Held S T o) {more : Nat}
    {U : VarTable} {e : TypeError} (he : ∀ text origin, e ≠ .unresolvedConstraint text origin)
    (hok : (passes S more (xs ++ ys)).outcome T = (.ok (), U)) :
    (passes S more (xs ++ o :: ys)).outcome T ≠ (.error (.error e), T') := by
  intro herr
  obtain ⟨rest, T2, hpass, -, hafter⟩ := passes_eq_ok h hok
  obtain ⟨xs', T1, ys', hx, hy, rfl⟩ := pass_append_eq_ok.1 hpass
  obtain ⟨⟨h1, he1⟩, -⟩ := (pass_ends xs h).of_ok hx
  replace ho := ho.later h h1 he1
  rcases hd : (discharge S o).outcome T1 with ⟨e' | v, T1'⟩
  · cases herr.symm.trans (passes_of_pass_error (pass_insert_error hx hd))
    exact ((discharge_binding_nothing h1 hb).of_error hd).2.not_holds ho.holds
  · obtain rfl : T1' = T1 := (discharge_binding_nothing h1 hb).of_ok hd
    obtain rfl := ho.verdict hd
    have hp := pass_insert hx hy hd
    obtain hp' | ⟨rest, U', m, hp', hm, herr⟩ := passes_eq_error he herr
    · cases hp.symm.trans hp'
    · cases hp.symm.trans hp'
      cases (hafter m hm).symm.trans herr

/-- If passes over a list end with an error, but succeed once an obligation that binds nothing has
moved to its end, then the error is that it was refused, and the bindings made until then are among
those made with it at the end. -/
theorem passes_moved (hb : binds o.constraint = false) {U : VarTable} {e : TypeError}
    (he : ∀ text origin, e ≠ .unresolvedConstraint text origin) : ∀ (more : Nat)
      {xs ys : List Obligation} {T : VarTable}, T.Wf →
      (passes S more (xs ++ o :: ys)).outcome T = (.error (.error e), T') →
      (passes S more (xs ++ (ys ++ [o]))).outcome T = (.ok (), U) →
      T'.Extends U ∧ (discharge S o).outcome T' = (.error (.error e), T')
  | more, xs, ys, T, h, herr, hok => by
    -- the two lists differ in the place of `o` alone, and go on doing so while it is put off
    obtain ⟨rest, T2, hpass, he2, hafter⟩ := passes_eq_ok h hok
    obtain ⟨xs', T1, _, hx, hyo, rfl⟩ := pass_append_eq_ok.1 hpass
    obtain ⟨ys', T2', _, hy, ho, rfl⟩ := pass_append_eq_ok.1 hyo
    obtain ⟨⟨h1, -⟩, -⟩ := (pass_ends xs h).of_ok hx
    obtain ⟨⟨h2, he1⟩, -⟩ := (pass_ends ys h1).of_ok hy
    obtain ⟨v', hd', rfl⟩ := pass_singleton_eq_ok.1 ho
    obtain rfl : T2 = T2' := (discharge_binding_nothing h2 hb).of_ok hd'
    rcases hd : (discharge S o).outcome T1 with ⟨e' | v, T1'⟩
    · -- it is refused here
      cases herr.symm.trans (passes_of_pass_error (pass_insert_error hx hd))
      obtain ⟨rfl, -⟩ := (discharge_binding_nothing h1 hb).of_error hd
      exact ⟨he1.trans he2, hd⟩
    · obtain rfl : T1' = T1 := (discharge_binding_nothing h1 hb).of_ok hd
      obtain hp | ⟨rest, _, m, hp, hm, herr'⟩ := passes_eq_error he herr
      · cases (pass_insert hx hy hd).symm.trans hp
      cases (pass_insert hx hy hd).symm.trans hp
      have hok' := hafter m hm
      cases v with
      | discharged =>
        -- it holds from here on, so both lists go on alike
        have hheld := (held_of_discharged h1 hb hd).later h1 h2 he1
        obtain rfl := hheld.verdict hd'
        simp only [kept, List.append_nil, List.nil_append] at hok' herr'
        cases hok'.symm.trans herr'
      | deferred =>
        cases v' with
        | discharged =>
          -- it holds at the end of the list, where the other list still has it
          simp only [kept, List.append_nil] at hok'
          exact absurd herr' (passes_held h2 hb (held_of_discharged h2 hb hd') he hok')
        | deferred => exact passes_moved hb he m h2 herr' hok'
termination_by more => more

/-- The same of a whole solve. -/
theorem solve_moved (h : T.Wf) (hb : binds o.constraint = false) {maxPasses : Nat}
    {U : VarTable} {e : TypeError} (he : ∀ text origin, e ≠ .unresolvedConstraint text origin)
    (herr : (solve S maxPasses (xs ++ o :: ys)).outcome T = (.error (.error e), T'))
    (hok : (solve S maxPasses (xs ++ ys ++ [o])).outcome T = (.ok (), U)) :
    T'.Extends U ∧ Refused S T' o e ∧ o.constraint.Holds S U := by
  have hsolve : ∀ {os : List Obligation}, os ≠ [] →
      solve S maxPasses os = passes S (maxPasses - 1) os := fun {os} hne => by
    cases os with
    | nil => exact absurd rfl hne
    | cons => rfl
  have hmet := ((solve_ends h _ _).of_ok hok).2 o (by simp)
  rw [hsolve (by simp)] at herr
  rw [hsolve (by simp), List.append_assoc] at hok
  obtain ⟨hext, hd⟩ := passes_moved hb he _ h herr hok
  have h' : T'.Wf := ((passes_ends _ _ h).of_error herr).1
  exact ⟨hext, ((discharge_binding_nothing h' hb).of_error hd).2, hmet.holds⟩

/-! ## Casts -/

/-- The cast from `t` to `u` is refused in `T`. In `T'`, which knows more, it is allowed, and one of
the variables that its types still had in `T` has become known. -/
structure Overturned (C : TraitTable) (T T' : VarTable) (t u : Ty) : Prop where
  grows : T.Extends T'
  refused : C.converts (T.resolve t) (T.resolve u) = false
  allowed : C.converts (T'.resolve t) (T'.resolve u) = true
  learned : ∃ v, (v ∈ (T.resolve t).occurrences ∨ v ∈ (T.resolve u).occurrences) ∧
    T'.resolve (.var v) ≠ .var v

/-- What overturns a verdict is a variable that becomes known. -/
theorem overturned_of_allowed {C : TraitTable} (h : T.Wf) (h' : T'.Wf) (he : T.Extends T')
    (hr : C.converts (T.resolve t) (T.resolve u) = false)
    (ha : C.converts (T'.resolve t) (T'.resolve u) = true) : Overturned C T T' t u := by
  refine ⟨he, hr, ha, ?_⟩
  by_contra hn
  push Not at hn
  have hsame : ∀ {s : Ty}, (∀ v ∈ (T.resolve s).occurrences, T'.resolve (.var v) = .var v) →
      T'.resolve s = T.resolve s := fun {s} hs => by
    rw [← he.resolve_resolve h h', resolve_eq_bind]
    exact (Ty.bind_congr hs).trans (Ty.bind_var _)
  rw [hsame fun v hv => hn v (.inl hv), hsame fun v hv => hn v (.inr hv), hr] at ha
  cases ha

/-- A solve that refuses a cast fails with the cast at the end of the list as well, and with a type
error if the obligations speak of minted variables and of scopes that exist; except where an
obligation behind the cast overturns the verdict: a variable that the two types still had when it
was taken becomes known. Types without variables leave no such exception. -/
theorem solve_cast_last (hT : Reachable T) {maxPasses : Nat} {before after : List Obligation}
    {cast : Obligation} (hc : cast.constraint = .has t (.convertibleTo u)) {shown : Ty}
    (hs : (solve S maxPasses (before ++ cast :: after)).outcome T = (.error (.error
      (.traitNotSatisfied shown (Trait.convertibleTo u).name cast.origin)), T')) :
    (∃ e U, (solve S maxPasses (before ++ after ++ [cast])).outcome T = (.error e, U) ∧
        (S.scopes.SlotsMinted T → (∀ o ∈ before ++ cast :: after, o.Fits S.scopes T) →
          ∃ e', e = .error e')) ∨
      ∃ U, (solve S maxPasses (before ++ after ++ [cast])).outcome T = (.ok (), U) ∧
        shown = T'.resolve t ∧ Overturned S.traits T' U t u := by
  have h := hT.wf
  rcases hr : (solve S maxPasses (before ++ after ++ [cast])).outcome T with ⟨e | ⟨⟩, U⟩
  · refine .inl ⟨e, U, rfl, fun hS ho => ?_⟩
    have hfits : ∀ o ∈ before ++ after ++ [cast], o.Fits S.scopes T := fun o hm =>
      ho o (by simpa [or_assoc, or_comm, or_left_comm] using hm)
    have hsteps := solve_steps (F := False) h (fun _ => hS) maxPasses fun _ => hfits
    cases e with
    | error e' => exact ⟨e', rfl⟩
    | fault f => exact absurd (congrArg Prod.fst hr) (hsteps.ne_fault f)
  · have hU : U.Wf := ((solve_ends h _ _).of_ok hr).1.1
    have h' : T'.Wf := ((solve_ends h _ _).of_error hs).1
    have hb : binds cast.constraint = false := by rw [hc]; rfl
    obtain ⟨he, hrefused, hholds⟩ := solve_moved h hb (fun _ _ hu => by cases hu) hs hr
    obtain ⟨t', trait, hc', herror⟩ := hrefused.error
    have hn := hrefused.not_holds
    rw [hc] at hc' hn hholds
    cases hc'
    refine .inr ⟨U, rfl, (TypeError.traitNotSatisfied.inj herror).1, ?_⟩
    exact overturned_of_allowed h' hU he (Bool.eq_false_iff.2 hn) hholds

/-- A pointer becomes known in the first pass, and cannot be cast to a number, early or late. -/
theorem solve_cast_last_pointer :
    let T : VarTable := (∅ : VarTable).mint.2.mint.2
    let T' : VarTable := ⟨#[.root 0 (some (.ptr (.var 1))), .root 0 (some .char)]⟩
    let before : List Obligation := [⟨.has (.var 1) .ord, .comparison ⟨0, 5⟩⟩]
    let cast : Obligation := ⟨.has (.var 0) (.convertibleTo .int), .cast ⟨6, 14⟩⟩
    let after : List Obligation := [⟨.equal (.var 0) (.ptr (.var 1)), .builtin⟩,
      ⟨.equal (.var 1) .char, .builtin⟩]
    (solve pointSetting 2 (before ++ cast :: after)).outcome T =
        (.error (.error (.traitNotSatisfied (.ptr .char) (Trait.convertibleTo .int).name
          cast.origin)), T') ∧
      ∃ e U, (solve pointSetting 2 (before ++ after ++ [cast])).outcome T = (.error e, U) := by
  intro T T' before cast after
  have hT : Reachable T := .tail (.tail .refl (.mint _)) (.mint _)
  have hs : (solve pointSetting 2 (before ++ cast :: after)).outcome T =
      (.error (.error (.traitNotSatisfied (.ptr .char) (Trait.convertibleTo .int).name
        cast.origin)), T') := by
    decide +kernel
  have hnone : (T'.resolve (.var 0)).occurrences = [] ∧ (T'.resolve .int).occurrences = [] := by
    decide +kernel
  refine ⟨hs, ?_⟩
  obtain ⟨e, U, hr, -⟩ | ⟨U, -, -, ho⟩ := solve_cast_last hT rfl hs
  · exact ⟨e, U, hr⟩
  · obtain ⟨v, hv, -⟩ := ho.learned
    rw [hnone.1, hnone.2] at hv
    simp at hv

/-- An equality behind the cast of a function to another function type makes them the same: first
the cast is refused, last it is allowed. -/
theorem cast_refused_early :
    let S : Setting := ⟨.initial, .builtin⟩
    let T : VarTable := (∅ : VarTable).mint.2
    let T' : VarTable := ⟨#[.root 0 (some .int)]⟩
    let source : Ty := .fn [.var 0] .int
    let target : Ty := .fn [.int] .int
    let cast : Obligation := ⟨.has source (.convertibleTo target), .builtin⟩
    let equality : Obligation := ⟨.equal (.var 0) .int, .builtin⟩
    Reachable T ∧ [cast, equality].countP (isField ·.constraint) + 2 ≤ 2 ∧
      (solve S 2 [cast, equality]).outcome T = (.error (.error
        (.traitNotSatisfied source (Trait.convertibleTo target).name cast.origin)), T) ∧
      (solve S 2 [equality, cast]).outcome T = (.ok (), T') := by
  intro S T T' source target cast equality
  refine ⟨.tail .refl (.mint _), by decide, ?_, ?_⟩
  · decide +kernel
  · decide +kernel

end Solve

end TypeInference
