import TypeInference.Proofs.Polymorphism

/-!
# The choices of an instantiation

`Picks quantified vs known known'`: on the way from the choices `known` to `known'` each quantified
variable in `vs` that had none got one, nothing else did, and no two got the same. Meeting the
variables of a list picks for that list (`forM_meet_picks`), since what is chosen later is minted
later (`Picks.append`). `Instantiated` gathers what is known of an instantiation that succeeds, and
that of a scheme over minted variables does (`Wf.exists_instantiated`).
-/

namespace TypeInference

namespace Instantiate

open VarTable

/-- What the choices have gained (module doc). -/
structure Picks (quantified vs : List TyVar) (known known' : KnownParams) : Prop where
  keys : ∀ v, known'.contains v ↔ known.contains v ∨ v ∈ quantified ∧ v ∈ vs
  distinct : ∀ v w t, known.get? v = none → known.get? w = none → known'.get? v = some t →
    known'.get? w = some t → v = w

section
variable {T T' T'' : VarTable} {known known' known'' : KnownParams} {quantified vs ws : List TyVar}

/-- Nothing has to be picked for variables that all have a choice. -/
theorem Picks.same (h : ∀ v ∈ vs, v ∈ quantified → known.contains v) :
    Picks quantified vs known known where
  keys v := ⟨.inl, fun hv => hv.elim id fun ⟨hq, hv⟩ => h v hv hq⟩
  distinct v w t hv _ hv' _ := by
    rw [hv] at hv'
    cases hv'

theorem Picks.nil : Picks quantified [] known known :=
  .same fun _ hv => absurd hv List.not_mem_nil

theorem Picks.congr (h : Picks quantified vs known known') (hv : ∀ v, v ∈ vs ↔ v ∈ ws) :
    Picks quantified ws known known' :=
  ⟨fun v => by rw [h.keys v, hv v], h.distinct⟩

theorem Picks.insert {v : TyVar} (hq : v ∈ quantified) (t : Ty) :
    Picks quantified [v] known (known.insert v t) where
  keys u := by
    rw [Assoc.contains_insert, Bool.or_eq_true, decide_eq_true_iff, List.mem_singleton, or_comm]
    exact or_congr_right ⟨fun h => h ▸ ⟨hq, rfl⟩, fun h => h.2.symm⟩
  distinct u w s hu hw hu' hw' := by
    have heq : ∀ {x}, known.get? x = none → (known.insert v t).get? x = some s → v = x :=
      fun {x} hx hx' => by
        by_contra hne
        rw [Assoc.get?_insert_of_ne _ hne, hx] at hx'
        cases hx'
    exact (heq hu hu').symm.trans (heq hw hw')

theorem Picks.append (h : Picks quantified vs known known') (hc : Chosen T T' known known')
    (h' : Picks quantified ws known' known'') (hc' : Chosen T' T'' known' known'') :
    Picks quantified (vs ++ ws) known known'' where
  keys v := by
    rw [h'.keys, h.keys, List.mem_append, or_assoc, and_or_left]
  distinct v w t hv hw hvt hwt := by
    -- of two choices the one made later is of a variable minted later
    have hlater : ∀ {x y}, known.get? x = none → known'.get? x ≠ none →
        known''.get? x = some t → known''.get? y = some t → known'.get? y ≠ none := by
      intro x y hx hx' hxt hyt hy
      obtain ⟨u, hu⟩ := Option.ne_none_iff_exists'.1 hx'
      obtain rfl := Option.some.inj ((hc'.kept x u hu).symm.trans hxt)
      obtain hu | ⟨z, rfl, -, hz⟩ := hc.new x u hu
      · rw [hx] at hu
        cases hu
      · obtain hy' | ⟨z', he, hz', -⟩ := hc'.new y _ hyt
        · rw [hy] at hy'
          cases hy'
        · cases he
          exact Nat.not_lt.2 hz' hz
    by_cases hv' : known'.get? v = none
    · have hw' : known'.get? w = none := by
        by_contra hw'
        exact hlater hw hw' hwt hvt hv'
      exact h'.distinct v w t hv' hw' hvt hwt
    · obtain ⟨a, ha⟩ := Option.ne_none_iff_exists'.1 hv'
      obtain ⟨b, hb⟩ := Option.ne_none_iff_exists'.1 (hlater hv hv' hvt hwt)
      obtain rfl := Option.some.inj ((hc'.kept v a ha).symm.trans hvt)
      obtain rfl := Option.some.inj ((hc'.kept w b hb).symm.trans hwt)
      exact h.distinct v w b hv hw ha hb

/-! ## Meeting variables -/

theorem meet_picks (quantified : List TyVar) (v : TyVar) : (meet quantified v).Ends (T, known)
    (fun _ st => Picks quantified [v] known st.2) (fun _ _ => False) fun _ => True := by
  unfold meet
  refine Action.ends_get_bind ?_
  by_cases hq : v ∈ quantified
  · simp only [hq, if_true]
    by_cases hk : known.contains v
    · simp only [hk, if_true]
      exact Action.ends_pure (.same fun u hu _ => List.mem_singleton.1 hu ▸ hk)
    · simp only [hk]
      exact Action.ends_set (.insert hq _)
  · simp only [hq, if_false]
    refine Action.ends_require (fun _ _ => .same fun u hu hu' => ?_) fun _ _ => trivial
    exact absurd (List.mem_singleton.1 hu ▸ hu') hq

theorem forM_meet_picks (quantified : List TyVar) : ∀ (vs : List TyVar) {T : VarTable}
    {known : KnownParams}, T.Wf → (vs.forM (meet quantified)).Ends (T, known)
      (fun _ st => Picks quantified vs known st.2) (fun _ _ => False) fun _ => True
  | [], _, _, _ => .nil
  | v :: vs, T, known, h => by
    have hv : (meet quantified v).Ends (T, known) _ _ _ :=
      (meet_ends h quantified v).and (meet_picks quantified v)
    refine Action.Ends.bind (x := meet quantified v) (hv.mono (fun _ _ => id)
      (fun _ _ => And.left) fun _ _ => trivial) ?_
    rintro - st ⟨⟨h1, hm1, hc1, -⟩, hp1⟩
    refine ((forM_meet_ends quantified vs h1).and (forM_meet_picks quantified vs h1)).mono ?_
      (fun _ _ => And.left) fun _ _ => trivial
    rintro - st' ⟨⟨-, -, hc2, -⟩, hp2⟩
    exact hp1.append hc1 hp2 hc2

end

/-! ## Instantiations -/

/-- What is known of an instantiation of `s` in the table `T`, with the choices `known`, that
answers `t`. -/
structure Instantiated (T : VarTable) (s : Scheme) (known : KnownParams) (t : Ty) (T' : VarTable)
    (known' : KnownParams) : Prop where
  wf : T'.Wf
  mints : T.Mints T'
  chosen : Chosen T T' known known'
  result : T.Instance s T' known' t
  picks : Picks s.vars (T.expand s.vars s.ty).occurrences known known'

theorem instantiateWith_picks {T : VarTable} (h : T.Wf) (s : Scheme) (known : KnownParams) :
    (instantiateWith s).Ends (T, known)
      (fun _ st => Picks s.vars (T.expand s.vars s.ty).occurrences known st.2)
      (fun _ _ => False) fun _ => True := by
  unfold instantiateWith
  by_cases hm : s.vars = []
  · simp only [Scheme.isMono, hm, List.isEmpty_nil, if_true]
    exact Action.ends_pure (.same fun _ _ hq => absurd hq List.not_mem_nil)
  · simp only [Scheme.isMono, List.isEmpty_iff, hm]
    refine Action.ends_get_bind (Action.Ends.bind (forM_meet_picks s.vars _ h) ?_)
    exact fun _ st hp => Action.ends_get_bind (Action.ends_pure (hp.congr fun v => Ty.mem_vars))

end Instantiate

namespace VarTable

open Instantiate

theorem Wf.exists_instantiated {T : VarTable} (h : T.Wf) {s : Scheme} (hs : T.SchemeMinted s)
    (known : KnownParams) : ∃ t T' known',
      (instantiateWith s).outcome (T, known) = (.ok t, (T', known')) ∧
        Instantiated T s known t T' known' := by
  have hi := (h.instantiateWith_ends s known).and (instantiateWith_picks h s known)
  obtain ⟨t, ⟨T', known'⟩, ho, ⟨h', hm, hc, hr⟩, hp⟩ | hf := (hi.mono (fun _ _ => id)
    (fun _ _ hf => hf.1.elim) fun _ hf => hf.1 hs :
      (instantiateWith s).Ends (T, known) _ (fun _ _ => False) fun _ => False).ok_or
  · exact ⟨t, T', known', ho, h', hm, hc, hr, hp⟩
  · exact hf.elim

/-- A table with further variables reads the same around the variables it keeps. -/
theorem Mints.resolveExcept_eq {T T' : VarTable} (hm : T.Mints T') (h : T.Wf) (h' : T'.Wf)
    (keep : List TyVar) (t : Ty) : T'.resolveExcept keep t = T.resolveExcept keep t := by
  have hvar : ∀ v, T'.resolveExcept keep (.var v) = T.resolveExcept keep (.var v) := fun v => by
    induction v using h.induct with
    | step v ih =>
      rw [h.resolveExcept_var, h'.resolveExcept_var, hm.value, hm.root]
      cases hv : T.value? v with
      | none => rfl
      | some u =>
        have hu : T'.resolveExcept keep u = T.resolveExcept keep u := by
          rw [resolveExcept_eq_bind, resolveExcept_eq_bind keep u]
          exact Ty.bind_congr fun w hw => ih u hv w hw
        simp only [hu]
  rw [resolveExcept_eq_bind, resolveExcept_eq_bind keep t]
  exact Ty.bind_congr fun v _ => hvar v

end VarTable

end TypeInference
