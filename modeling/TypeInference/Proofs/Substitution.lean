import TypeInference.Proofs.Polymorphism
import TypeInference.Proofs.VarTable.Readings

/-!
# Instantiation in one pass

`Substitutes quantified st t u st'` gives by rules how an instantiation reads the type `t` once from
left to right: a quantified variable is replaced by what was chosen for it, or by a new variable
when it is met for the first time; a bound variable is replaced by what it stands for. The state
holds the table and the choices. `Wf.substitutes_iff`: the pass ends, with one result, and that is
what `instantiateWith` answers, which expands the type first, then mints and then replaces.
-/

namespace TypeInference.Instantiate

open VarTable

mutual

/-- One pass over a type (module doc). -/
inductive Substitutes (quantified : List TyVar) :
    VarTable × KnownParams → Ty → Ty → VarTable × KnownParams → Prop
  | chosen {T : VarTable} {known : KnownParams} {v : TyVar} {t : Ty} : v ∈ quantified →
      known.get? v = some t → Substitutes quantified (T, known) (.var v) t (T, known)
  | fresh {T : VarTable} {known : KnownParams} {v : TyVar} : v ∈ quantified →
      known.get? v = none → Substitutes quantified (T, known) (.var v) (.var T.size)
        (T.mint.2, known.insert v (.var T.size))
  | bound {T : VarTable} {known : KnownParams} {v : TyVar} {t u : Ty}
      {st : VarTable × KnownParams} : v ∉ quantified → v < T.size → T.value? v = some t →
      Substitutes quantified (T, known) t u st → Substitutes quantified (T, known) (.var v) u st
  | unbound {T : VarTable} {known : KnownParams} {v : TyVar} : v ∉ quantified → v < T.size →
      T.value? v = none → Substitutes quantified (T, known) (.var v) (.var v) (T, known)
  | con (st : VarTable × KnownParams) (n : String) :
      Substitutes quantified st (.con n) (.con n) st
  | ptr {st st' : VarTable × KnownParams} {t u : Ty} : Substitutes quantified st t u st' →
      Substitutes quantified st (.ptr t) (.ptr u) st'
  | fn {st st' st'' : VarTable × KnownParams} {ps qs : List Ty} {r s : Ty} :
      SubstitutesAll quantified st ps qs st' → Substitutes quantified st' r s st'' →
      Substitutes quantified st (.fn ps r) (.fn qs s) st''
  | struct {st st' : VarTable × KnownParams} {n : Option String} {fs gs : List (String × Ty)} :
      SubstitutesFields quantified st fs gs st' →
      Substitutes quantified st (.struct n fs) (.struct n gs) st'

inductive SubstitutesAll (quantified : List TyVar) :
    VarTable × KnownParams → List Ty → List Ty → VarTable × KnownParams → Prop
  | nil (st : VarTable × KnownParams) : SubstitutesAll quantified st [] [] st
  | cons {st st' st'' : VarTable × KnownParams} {t u : Ty} {ts us : List Ty} :
      Substitutes quantified st t u st' → SubstitutesAll quantified st' ts us st'' →
      SubstitutesAll quantified st (t :: ts) (u :: us) st''

inductive SubstitutesFields (quantified : List TyVar) : VarTable × KnownParams →
    List (String × Ty) → List (String × Ty) → VarTable × KnownParams → Prop
  | nil (st : VarTable × KnownParams) : SubstitutesFields quantified st [] [] st
  | cons {st st' st'' : VarTable × KnownParams} {n : String} {t u : Ty}
      {fs gs : List (String × Ty)} : Substitutes quantified st t u st' →
      SubstitutesFields quantified st' fs gs st'' →
      SubstitutesFields quantified st ((n, t) :: fs) ((n, u) :: gs) st''

end

section
variable {q : List TyVar} {T : VarTable} {st st' st'' : VarTable × KnownParams}

/-! ## Meeting variables -/

theorem meet_of_met {v : TyVar} (h : Met q st.1 st.2 v) :
    (meet q v).outcome st = (.ok (), st) := by
  obtain ⟨T, known⟩ := st
  unfold meet
  by_cases hq : v ∈ q
  · obtain ⟨t, ht⟩ := h.chosen hq
    have hk : known.contains v = true := by simp [Assoc.contains, ht]
    show (if v ∈ q then _ else _ : Action (VarTable × KnownParams) Unit).outcome (T, known) = _
    simp only [hq, hk, if_true]
    rfl
  · have hv : T.requireVar v = .ok () := requireVar_eq_ok.2 (h.minted hq)
    show (if v ∈ q then _ else _ : Action (VarTable × KnownParams) Unit).outcome (T, known) = _
    simp only [hq, if_false, hv]
    rfl

theorem forM_meet_cons (v : TyVar) (vs : List TyVar) : (v :: vs).forM (meet q) =
    (meet q v >>= fun _ => vs.forM (meet q)) := rfl

theorem forM_meet_append (vs ws : List TyVar) : (vs ++ ws).forM (meet q) =
    (vs.forM (meet q) >>= fun _ => ws.forM (meet q)) := List.forM_append

/-- What the variables of a list have once all of them were met. -/
theorem forM_meet_met {vs : List TyVar} (h : st.1.Wf)
    (ho : (vs.forM (meet q)).outcome st = (.ok (), st')) : st'.1.Wf ∧ st.1.Mints st'.1 ∧
      Chosen st.1 st'.1 st.2 st'.2 ∧ ∀ v ∈ vs, Met q st'.1 st'.2 v :=
  (forM_meet_ends q vs h).of_ok ho

/-- A variable that was met need not be met again. -/
theorem forM_meet_filter {v : TyVar} : ∀ (vs : List TyVar) {st : VarTable × KnownParams}, st.1.Wf →
    Met q st.1 st.2 v →
    ((vs.filter fun w => !w == v).forM (meet q)).outcome st = (vs.forM (meet q)).outcome st
  | [], _, _, _ => rfl
  | w :: vs, st, h, hm => by
    by_cases hw : w = v
    · subst hw
      rw [List.filter_cons_of_neg (by simp), forM_meet_cons, Action.outcome_bind, meet_of_met hm]
      exact forM_meet_filter vs h hm
    · rw [List.filter_cons_of_pos (by simpa using hw), forM_meet_cons, forM_meet_cons,
        Action.outcome_bind, Action.outcome_bind]
      rcases ho : (meet q w).outcome st with ⟨e | ⟨⟩, st'⟩
      · rfl
      · obtain ⟨h', hmi, hc, -⟩ := (meet_ends h q w).of_ok ho
        exact forM_meet_filter vs h' (hm.later hmi.size_le hc)

/-- Meeting each variable of a list once comes to the same as meeting all of them in turn. -/
theorem forM_meet_eraseDups (vs : List TyVar) (h : st.1.Wf) :
    (vs.eraseDups.forM (meet q)).outcome st = (vs.forM (meet q)).outcome st := by
  induction hn : vs.length using Nat.strongRecOn generalizing vs st with
  | _ n ih =>
    subst hn
    cases vs with
    | nil => rfl
    | cons v vs =>
      rw [List.eraseDups_cons, forM_meet_cons, forM_meet_cons, Action.outcome_bind,
        Action.outcome_bind]
      rcases ho : (meet q v).outcome st with ⟨e | ⟨⟩, st'⟩
      · rfl
      · obtain ⟨h', -, -, hm⟩ := (meet_ends h q v).of_ok ho
        have hlt : (vs.filter fun w => !w == v).length < (v :: vs).length :=
          Nat.lt_succ_of_le (List.length_filter_le ..)
        show ((vs.filter fun w => !w == v).eraseDups.forM (meet q)).outcome st' = _
        rw [ih _ hlt _ h' rfl]
        exact forM_meet_filter vs h' hm

theorem bind_replacement_later {t : Ty} (hm : ∀ v ∈ t.occurrences, Met q st.1 st.2 v)
    (hc : Chosen st.1 st'.1 st.2 st'.2) :
    t.bind (replacement q st.2) = t.bind (replacement q st'.2) :=
  Ty.bind_congr fun v hv => replacement_later (hm v hv).chosen (hc.kept v)

/-! ## What a pass does -/

/-- Meeting the variables `vs` takes the first state to the second. -/
def Took (q : List TyVar) (vs : List TyVar) (st st' : VarTable × KnownParams) : Prop :=
  (vs.forM (meet q)).outcome st = (.ok (), st')

theorem Took.append {vs ws : List TyVar} (h : Took q vs st st') (h' : Took q ws st' st'') :
    Took q (vs ++ ws) st st'' := by
  unfold Took at *
  rw [forM_meet_append, Action.outcome_bind, h]
  exact h'

/-- The leaves of a type are those of the expansion that instantiation starts from. -/
abbrev leaves (T : VarTable) (q : List TyVar) (t : Ty) : List TyVar := (T.expand q t).occurrences

theorem expand_fn (ps : List Ty) (r : Ty) :
    T.expand q (.fn ps r) = .fn (ps.map (T.expand q)) (T.expand q r) := by
  simp only [expand, Ty.bind, Ty.bindAll_eq_map]
  rfl

theorem expand_struct (n : Option String) (fs : List (String × Ty)) :
    T.expand q (.struct n fs) = .struct n (fs.map fun p => (p.1, T.expand q p.2)) := by
  simp only [expand, Ty.bind, Ty.bindFields_eq_map]

theorem leaves_fn (ps : List Ty) (r : Ty) :
    leaves T q (.fn ps r) = ps.flatMap (leaves T q) ++ leaves T q r := by
  rw [leaves, expand_fn, Ty.occurrences, Ty.occurrencesAll_eq_flatMap, List.flatMap_map]

theorem leaves_struct (n : Option String) (fs : List (String × Ty)) :
    leaves T q (.struct n fs) = fs.flatMap fun p => leaves T q p.2 := by
  rw [leaves, expand_struct, Ty.occurrences, Ty.occurrencesFields_eq_flatMap, List.flatMap_map]

/-- A pass meets the leaves `vs` and leaves a table of the first one's bindings. -/
structure Passed (T : VarTable) (q : List TyVar) (vs : List TyVar)
    (st st' : VarTable × KnownParams) : Prop where
  took : Took q vs st st'
  wf : st'.1.Wf
  mints : T.Mints st'.1
  chosen : Chosen st.1 st'.1 st.2 st'.2
  met : ∀ v ∈ vs, Met q st'.1 st'.2 v

theorem Took.passed {vs : List TyVar} (ht : Took q vs st st') (h : st.1.Wf) (hm : T.Mints st.1) :
    Passed T q vs st st' := by
  obtain ⟨h', hm', hc, hv⟩ := forM_meet_met h ht
  exact ⟨ht, h', hm.trans hm', hc, hv⟩

/-- A variable that stands for itself is the only leaf of its type. -/
theorem expand_leaf (hT : T.Wf) {v : TyVar} (hv : v ∈ q ∨ T.value? v = none) :
    T.expand q (.var v) = .var v := by
  rw [hT.expand_var]
  split
  · rfl
  · rename_i hq
    rw [hv.resolve_left hq]

/-- A pass over a leaf. -/
theorem passed_leaf (hT : T.Wf) {v : TyVar} {u : Ty} (h : st.1.Wf) (hm : T.Mints st.1)
    (hv : v ∈ q ∨ T.value? v = none) (ht : (meet q v).outcome st = (.ok (), st'))
    (hu : u = replacement q st'.2 v) : Passed T q (leaves T q (.var v)) st st' ∧
      u = (T.expand q (.var v)).bind (replacement q st'.2) := by
  unfold leaves
  rw [expand_leaf hT hv]
  refine ⟨Took.passed ?_ h hm, hu⟩
  show ((meet q v >>= fun _ => List.forM [] (meet q))).outcome st = _
  rw [Action.outcome_bind, ht]
  rfl

mutual

/-- A pass meets the leaves of the type and replaces them by what is chosen for them then. -/
theorem Substitutes.passed (hT : T.Wf) : ∀ {st st' : VarTable × KnownParams} {t u : Ty},
    Substitutes q st t u st' → st.1.Wf → T.Mints st.1 →
      Passed T q (leaves T q t) st st' ∧ u = (T.expand q t).bind (replacement q st'.2)
  | _, _, _, _, .chosen (v := v) (t := t) hq hk, h, hm => by
    refine passed_leaf hT h hm (.inl hq) (meet_of_met ⟨fun _ => ⟨t, hk⟩, fun hn => ?_⟩) ?_
    · exact absurd hq hn
    · simp only [replacement, hq, if_true, hk, Option.getD_some]
  | _, _, _, _, @Substitutes.fresh _ T' known v hq hk, h, hm => by
    have hc : known.contains v = false := by simp [Assoc.contains, hk]
    refine passed_leaf hT h hm (.inl hq) ?_ ?_
    · unfold meet
      show (if v ∈ q then _ else _ : Action (VarTable × KnownParams) Unit).outcome (T', known) = _
      simp only [hq, hc, if_true]
      rfl
    · simp only [replacement, hq, if_true, Assoc.get?_insert_self, Option.getD_some]
  | _, _, _, _, .bound (v := v) (t := t) hq _ ht hs, h, hm => by
    have ht' : T.value? v = some t := hm.value v ▸ ht
    have he : T.expand q (.var v) = T.expand q t := by rw [hT.expand_var, if_neg hq, ht']
    unfold leaves
    rw [he]
    exact Substitutes.passed hT hs h hm
  | _, _, _, _, .unbound (v := v) hq hlt hn, h, hm => by
    have hn' : T.value? v = none := hm.value v ▸ hn
    refine passed_leaf hT h hm (.inr hn') (meet_of_met ⟨fun hq' => absurd hq' hq, fun _ => hlt⟩) ?_
    simp only [replacement, hq, if_false]
  | _, _, _, _, .con st n, h, hm => ⟨Took.passed rfl h hm, rfl⟩
  | _, _, _, _, .ptr ht, h, hm => by
    obtain ⟨hp, rfl⟩ := Substitutes.passed hT ht h hm
    exact ⟨hp, rfl⟩
  | _, _, _, _, @Substitutes.fn _ _ _ _ ps _ r _ hps hr, h, hm => by
    obtain ⟨hp1, rfl⟩ := SubstitutesAll.passed hT hps h hm
    obtain ⟨hp2, rfl⟩ := Substitutes.passed hT hr hp1.wf hp1.mints
    rw [leaves_fn, expand_fn, Ty.bind, Ty.bindAll_eq_map, List.map_map]
    refine ⟨(hp1.took.append hp2.took).passed h hm, congrArg (Ty.fn · _) ?_⟩
    refine List.map_congr_left fun p hp => bind_replacement_later (fun v hv => ?_) hp2.chosen
    exact hp1.met v (List.mem_flatMap.2 ⟨p, hp, hv⟩)
  | _, _, _, _, .struct hfs, h, hm => by
    obtain ⟨hp, rfl⟩ := SubstitutesFields.passed hT hfs h hm
    rw [leaves_struct, expand_struct, Ty.bind, Ty.bindFields_eq_map, List.map_map]
    exact ⟨hp, rfl⟩

theorem SubstitutesAll.passed (hT : T.Wf) : ∀ {st st' : VarTable × KnownParams} {ts us : List Ty},
    SubstitutesAll q st ts us st' → st.1.Wf → T.Mints st.1 →
      Passed T q (ts.flatMap (leaves T q)) st st' ∧
        us = ts.map fun t => (T.expand q t).bind (replacement q st'.2)
  | _, _, _, _, .nil st, h, hm => ⟨Took.passed rfl h hm, rfl⟩
  | _, _, _, _, .cons (t := t) ht hts, h, hm => by
    obtain ⟨hp1, rfl⟩ := Substitutes.passed hT ht h hm
    obtain ⟨hp2, rfl⟩ := SubstitutesAll.passed hT hts hp1.wf hp1.mints
    rw [List.flatMap_cons, List.map_cons, bind_replacement_later hp1.met hp2.chosen]
    exact ⟨(hp1.took.append hp2.took).passed h hm, rfl⟩

theorem SubstitutesFields.passed (hT : T.Wf) : ∀ {st st' : VarTable × KnownParams}
    {fs gs : List (String × Ty)}, SubstitutesFields q st fs gs st' → st.1.Wf → T.Mints st.1 →
      Passed T q (fs.flatMap fun p => leaves T q p.2) st st' ∧
        gs = fs.map fun p => (p.1, (T.expand q p.2).bind (replacement q st'.2))
  | _, _, _, _, .nil st, h, hm => ⟨Took.passed rfl h hm, rfl⟩
  | _, _, _, _, .cons ht hfs, h, hm => by
    obtain ⟨hp1, rfl⟩ := Substitutes.passed hT ht h hm
    obtain ⟨hp2, rfl⟩ := SubstitutesFields.passed hT hfs hp1.wf hp1.mints
    rw [List.flatMap_cons, List.map_cons, bind_replacement_later hp1.met hp2.chosen]
    exact ⟨(hp1.took.append hp2.took).passed h hm, rfl⟩

end

/-! ## Every pass ends -/

/-- From any state that has the table's bindings, a pass over the type comes to its end. -/
def Passable (T : VarTable) (q : List TyVar) (t : Ty) : Prop :=
  ∀ st : VarTable × KnownParams, st.1.Wf → T.Mints st.1 → ∃ u st', Substitutes q st t u st'

theorem substitutesAll_of (hT : T.Wf) : ∀ (ts : List Ty), (∀ t ∈ ts, Passable T q t) →
    ∀ st : VarTable × KnownParams, st.1.Wf → T.Mints st.1 → ∃ us st', SubstitutesAll q st ts us st'
  | [], _, st, _, _ => ⟨[], st, .nil st⟩
  | t :: ts, hts, st, h, hm => by
    obtain ⟨ht, hts⟩ := List.forall_mem_cons.1 hts
    obtain ⟨u, st1, hs⟩ := ht st h hm
    obtain ⟨hp, -⟩ := hs.passed hT h hm
    obtain ⟨us, st2, hss⟩ := substitutesAll_of hT ts hts st1 hp.wf hp.mints
    exact ⟨u :: us, st2, .cons hs hss⟩

theorem substitutesFields_of (hT : T.Wf) : ∀ (fs : List (String × Ty)),
    (∀ f ∈ fs, Passable T q f.2) → ∀ st : VarTable × KnownParams, st.1.Wf → T.Mints st.1 →
      ∃ gs st', SubstitutesFields q st fs gs st'
  | [], _, st, _, _ => ⟨[], st, .nil st⟩
  | (n, t) :: fs, hfs, st, h, hm => by
    obtain ⟨ht, hfs⟩ := List.forall_mem_cons.1 hfs
    obtain ⟨u, st1, hs⟩ := ht st h hm
    obtain ⟨hp, -⟩ := hs.passed hT h hm
    obtain ⟨gs, st2, hss⟩ := substitutesFields_of hT fs hfs st1 hp.wf hp.mints
    exact ⟨(n, u) :: gs, st2, .cons hs hss⟩

theorem passable_of_vars (hT : T.Wf) {t : Ty} (h : ∀ v ∈ t.occurrences, Passable T q (.var v)) :
    Passable T q t := by
  induction t with
  | var v => exact h v (by simp [Ty.occurrences])
  | con n => exact fun st _ _ => ⟨_, st, .con st n⟩
  | ptr t ih =>
    intro st hw hm
    obtain ⟨u, st', hs⟩ := ih h st hw hm
    exact ⟨.ptr u, st', .ptr hs⟩
  | fn ps r ihp ihr =>
    simp only [Ty.occurrences, Ty.occurrencesAll_eq_flatMap, List.mem_append, List.mem_flatMap] at h
    intro st hw hm
    obtain ⟨qs, st1, hps⟩ := substitutesAll_of hT ps
      (fun p hp => ihp p hp fun v hv => h v (.inl ⟨p, hp, hv⟩)) st hw hm
    obtain ⟨hp, -⟩ := hps.passed hT hw hm
    obtain ⟨s, st2, hr⟩ := ihr (fun v hv => h v (.inr hv)) st1 hp.wf hp.mints
    exact ⟨.fn qs s, st2, .fn hps hr⟩
  | struct n fs ih =>
    simp only [Ty.occurrences, Ty.occurrencesFields_eq_flatMap, List.mem_flatMap] at h
    intro st hw hm
    obtain ⟨gs, st1, hfs⟩ := substitutesFields_of hT fs
      (fun f hf => ih f hf fun v hv => h v ⟨f, hf, hv⟩) st hw hm
    exact ⟨.struct n gs, st1, .struct hfs⟩

theorem passable_var (hT : T.Wf) (v : TyVar) (hv : v < T.size) : Passable T q (.var v) := by
  induction v using hT.induct with
  | step v ih =>
    rintro ⟨T', known⟩ h hm
    have hv' : v < T'.size := Nat.lt_of_lt_of_le hv hm.size_le
    by_cases hq : v ∈ q
    · cases hk : known.get? v with
      | none => exact ⟨_, _, .fresh hq hk⟩
      | some t => exact ⟨t, _, .chosen hq hk⟩
    · cases ht : T'.value? v with
      | none => exact ⟨_, _, .unbound hq hv' ht⟩
      | some t =>
        have ht' : T.value? v = some t := hm.value v ▸ ht
        have hp : Passable T q t := passable_of_vars hT fun w hw =>
          ih t ht' w hw (hT.value_lt v t ht' w hw)
        obtain ⟨u, st', hs⟩ := hp (T', known) h hm
        exact ⟨u, st', .bound hq hv' ht hs⟩

/-! ## The answer -/

theorem instantiateWith_outcome (hq : q ≠ []) (t : Ty) (st : VarTable × KnownParams) :
    (instantiateWith ⟨q, t⟩).outcome st =
      match ((st.1.expand q t).vars.forM (meet q)).outcome st with
      | (.ok _, st') => (.ok ((st.1.expand q t).bind (replacement q st'.2)), st')
      | (.error e, st') => (.error e, st') := by
  unfold instantiateWith
  simp only [Scheme.isMono, List.isEmpty_iff, hq, if_false]
  rw [Action.outcome_get_bind, Action.outcome_bind]
  rcases ((st.1.expand q t).vars.forM (meet q)).outcome st with ⟨e | ⟨⟩, st'⟩
  · rfl
  · exact Action.outcome_get_bind ..

end

end TypeInference.Instantiate

namespace TypeInference.VarTable

open Instantiate

/-- A pass over a type of minted variables ends, with one result. If there are quantified variables
at all, that is what instantiating the type with them answers. -/
theorem Wf.substitutes_iff {T : VarTable} (h : T.Wf) {q : List TyVar} {t : Ty} (ht : T.Minted t)
    (known : KnownParams) : ∃ u st,
      (q ≠ [] → (instantiateWith ⟨q, t⟩).outcome (T, known) = (.ok u, st)) ∧
        ∀ u' st', Substitutes q (T, known) t u' st' ↔ u' = u ∧ st' = st := by
  have hp : Passable T q t := passable_of_vars h fun v hv => passable_var h v (ht v hv)
  obtain ⟨u, st, hs⟩ := hp (T, known) h (.refl T)
  obtain ⟨hpass, hu⟩ := hs.passed h h (.refl T)
  refine ⟨u, st, fun hq => ?_, fun u' st' => ⟨fun hs' => ?_, ?_⟩⟩
  · rw [instantiateWith_outcome hq, Ty.vars, forM_meet_eraseDups _ h, hpass.took, hu]
  · -- both passes meet the same leaves, so they end in the same state
    obtain ⟨hpass', hu'⟩ := hs'.passed h h (.refl T)
    obtain rfl : st' = st := congrArg Prod.snd (hpass'.took.symm.trans hpass.took)
    exact ⟨hu'.trans hu.symm, rfl⟩
  · rintro ⟨rfl, rfl⟩
    exact hs

end TypeInference.VarTable
