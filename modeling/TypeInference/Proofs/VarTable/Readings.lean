import TypeInference.Proofs.VarTable.Resolve

/-!
# Readings as rules

The readings of `VarTable.Resolve` count the bindings that they follow. Here each of them is given
by rules that count nothing: a rule for each form of a type, and for a bound variable the rule that
goes on with the type it is bound to. A derivation is a finite recursion, so a reading comes to an
end exactly where there is one; the rules for variables ask that the variable was minted.

* `Leads T t u`: the outermost form of `t` is `u`.
* `Resolves T keep t u`: resolving `t` around the variables in `keep` gives `u`.
* `Meets T v t b`: `b` says whether the class of `v` is met in `t`. Parts are asked from left to
  right, and the first meeting settles the question.

On a well-formed table each of the readings ends, with one result, that of the counting definition:
`Wf.leads_iff`, `Wf.resolves_iff`, `Wf.meets_iff`. What makes them end is that bindings lead from
class to class without a cycle (`Wf.wellFounded_inside`).
-/

namespace TypeInference.VarTable

/-- `c` is the class of a variable in the type that the class of `d` is bound to. -/
def Inside (T : VarTable) (c d : TyVar) : Prop :=
  ∃ t, T.value? d = some t ∧ ∃ w ∈ t.occurrences, T.root w = c

theorem Wf.wellFounded_inside {T : VarTable} (h : T.Wf) : WellFounded T.Inside := by
  obtain ⟨rank, hr⟩ := h.acyclic
  refine Subrelation.wf ?_ (measure fun c => rank (T.root c)).wf
  rintro c d ⟨t, ht, w, hw, rfl⟩
  show rank (T.root (T.root w)) < rank (T.root d)
  rw [h.root_root]
  exact hr d t ht w hw

/-! ## Rules -/

/-- The outermost form of a type. -/
inductive Leads (T : VarTable) : Ty → Ty → Prop
  | bound {v : TyVar} {t u : Ty} : v < T.size → T.value? v = some t → Leads T t u →
      Leads T (.var v) u
  | unbound {v : TyVar} : v < T.size → T.value? v = none → Leads T (.var v) (.var (T.root v))
  | known {t : Ty} : (∀ v, t ≠ .var v) → Leads T t t

mutual

/-- A type resolved around the variables in `keep`. -/
inductive Resolves (T : VarTable) (keep : List TyVar) : Ty → Ty → Prop
  | kept {v : TyVar} : v ∈ keep → Resolves T keep (.var v) (.var v)
  | bound {v : TyVar} {t u : Ty} : v ∉ keep → v < T.size → T.value? v = some t →
      Resolves T keep t u → Resolves T keep (.var v) u
  | unbound {v : TyVar} : v ∉ keep → v < T.size → T.value? v = none →
      Resolves T keep (.var v) (.var (T.root v))
  | con (n : String) : Resolves T keep (.con n) (.con n)
  | ptr {t u : Ty} : Resolves T keep t u → Resolves T keep (.ptr t) (.ptr u)
  | fn {ps qs : List Ty} {r s : Ty} : ResolvesAll T keep ps qs → Resolves T keep r s →
      Resolves T keep (.fn ps r) (.fn qs s)
  | struct {n : Option String} {fs gs : List (String × Ty)} : ResolvesFields T keep fs gs →
      Resolves T keep (.struct n fs) (.struct n gs)

inductive ResolvesAll (T : VarTable) (keep : List TyVar) : List Ty → List Ty → Prop
  | nil : ResolvesAll T keep [] []
  | cons {t u : Ty} {ts us : List Ty} : Resolves T keep t u → ResolvesAll T keep ts us →
      ResolvesAll T keep (t :: ts) (u :: us)

inductive ResolvesFields (T : VarTable) (keep : List TyVar) :
    List (String × Ty) → List (String × Ty) → Prop
  | nil : ResolvesFields T keep [] []
  | cons {n : String} {t u : Ty} {fs gs : List (String × Ty)} : Resolves T keep t u →
      ResolvesFields T keep fs gs → ResolvesFields T keep ((n, t) :: fs) ((n, u) :: gs)

end

mutual

/-- Whether the class of `v` is met in a type. -/
inductive Meets (T : VarTable) (v : TyVar) : Ty → Bool → Prop
  | here {w : TyVar} : w < T.size → v < T.size → T.root w = T.root v → Meets T v (.var w) true
  | bound {w : TyVar} {t : Ty} {b : Bool} : w < T.size → v < T.size → T.root w ≠ T.root v →
      T.value? w = some t → Meets T v t b → Meets T v (.var w) b
  | unbound {w : TyVar} : w < T.size → v < T.size → T.root w ≠ T.root v → T.value? w = none →
      Meets T v (.var w) false
  | parts {t : Ty} {b : Bool} : (∀ w, t ≠ .var w) → MeetsAny T v t.parts b → Meets T v t b

inductive MeetsAny (T : VarTable) (v : TyVar) : List Ty → Bool → Prop
  | nil : MeetsAny T v [] false
  | found {t : Ty} (ts : List Ty) : Meets T v t true → MeetsAny T v (t :: ts) true
  | next {t : Ty} {ts : List Ty} {b : Bool} : Meets T v t false → MeetsAny T v ts b →
      MeetsAny T v (t :: ts) b

end

section
variable {T : VarTable}

/-! ## The outermost form -/

theorem Wf.leads (h : T.Wf) {t : Ty} (ht : T.Minted t) : Leads T t (T.leader t) := by
  cases t with
  | var v =>
    have hv : v < T.size := ht v (by simp [Ty.occurrences])
    rw [h.leader_var]
    cases hs : T.value? v with
    | none => exact .unbound hv hs
    | some s => exact .bound hv hs (.known (h.value_ne_var v s hs))
  | _ => exact .known fun _ he => by cases he

theorem Leads.eq (h : T.Wf) {t u : Ty} (hl : Leads T t u) : u = T.leader t := by
  induction hl with
  | @bound v t u hv ht _ ih =>
    rw [ih, h.leader_var, ht]
    -- a value is no variable, so it is its own leader
    have hne := h.value_ne_var v t ht
    cases t with
    | var w => exact absurd rfl (hne w)
    | _ => rfl
  | unbound hv hn => rw [h.leader_var, hn]
  | @known t ht =>
    cases t with
    | var v => exact absurd rfl (ht v)
    | _ => rfl

theorem Wf.leads_iff (h : T.Wf) {t u : Ty} (ht : T.Minted t) : Leads T t u ↔ u = T.leader t := by
  constructor
  · exact Leads.eq h
  · rintro rfl
    exact h.leads ht

/-! ## All levels -/

variable {keep : List TyVar}

theorem resolvesAll_map {ps : List Ty} {f : Ty → Ty} (h : ∀ p ∈ ps, Resolves T keep p (f p)) :
    ResolvesAll T keep ps (ps.map f) := by
  induction ps with
  | nil => exact .nil
  | cons p ps ih =>
    obtain ⟨hp, hps⟩ := List.forall_mem_cons.1 h
    exact .cons hp (ih hps)

theorem resolvesFields_map {fs : List (String × Ty)} {f : Ty → Ty}
    (h : ∀ p ∈ fs, Resolves T keep p.2 (f p.2)) :
    ResolvesFields T keep fs (fs.map fun p => (p.1, f p.2)) := by
  induction fs with
  | nil => exact .nil
  | cons p fs ih =>
    obtain ⟨hp, hfs⟩ := List.forall_mem_cons.1 h
    exact .cons hp (ih hfs)

/-- A type is resolved once each of its variables is. -/
theorem resolves_bind {t : Ty} {f : TyVar → Ty}
    (h : ∀ v ∈ t.occurrences, Resolves T keep (.var v) (f v)) : Resolves T keep t (t.bind f) := by
  induction t with
  | var v => exact h v (by simp [Ty.occurrences])
  | con n => exact .con n
  | ptr t ih => exact .ptr (ih h)
  | fn ps r ihp ihr =>
    simp only [Ty.occurrences, Ty.occurrencesAll_eq_flatMap, List.mem_append, List.mem_flatMap] at h
    rw [Ty.bind, Ty.bindAll_eq_map]
    refine .fn (resolvesAll_map fun p hp => ?_) (ihr fun v hv => h v (.inr hv))
    exact ihp p hp fun v hv => h v (.inl ⟨p, hp, hv⟩)
  | struct n fs ih =>
    simp only [Ty.occurrences, Ty.occurrencesFields_eq_flatMap, List.mem_flatMap] at h
    rw [Ty.bind, Ty.bindFields_eq_map]
    exact .struct (resolvesFields_map fun p hp => ih p hp fun v hv => h v ⟨p, hp, hv⟩)

theorem Wf.resolves_var (h : T.Wf) (v : TyVar) (hv : v < T.size) :
    Resolves T keep (.var v) (T.resolveExcept keep (.var v)) := by
  induction v using h.induct with
  | step v ih =>
    rw [h.resolveExcept_var]
    split
    · exact .kept ‹_›
    · cases hs : T.value? v with
      | none => exact .unbound ‹_› hv hs
      | some s =>
        refine .bound ‹_› hv hs ?_
        show Resolves T keep s (T.resolveExcept keep s)
        rw [resolveExcept_eq_bind]
        exact resolves_bind fun w hw => ih s hs w hw (h.value_lt v s hs w hw)

theorem resolveExcept_fn (ps : List Ty) (r : Ty) : T.resolveExcept keep (.fn ps r) =
    .fn (ps.map (T.resolveExcept keep)) (T.resolveExcept keep r) := by
  simp only [resolveExcept, expand, Ty.bind, Ty.bindAll_eq_map, List.map_map]
  rfl

theorem resolveExcept_struct (n : Option String) (fs : List (String × Ty)) :
    T.resolveExcept keep (.struct n fs) =
      .struct n (fs.map fun p => (p.1, T.resolveExcept keep p.2)) := by
  simp only [resolveExcept, expand, Ty.bind, Ty.bindFields_eq_map, List.map_map, Function.comp_def]

mutual

theorem Resolves.eq (h : T.Wf) : ∀ {t u : Ty}, Resolves T keep t u → u = T.resolveExcept keep t
  | _, _, .kept hk => by rw [h.resolveExcept_var, if_pos hk]
  | _, _, .bound hk _ ht hr => by
    rw [h.resolveExcept_var, if_neg hk, ht]
    exact Resolves.eq h hr
  | _, _, .unbound hk _ hn => by rw [h.resolveExcept_var, if_neg hk, hn]
  | _, _, .con _ => rfl
  | _, _, .ptr ht => congrArg Ty.ptr (Resolves.eq h ht)
  | _, _, .fn hps hr => by rw [resolveExcept_fn, ← ResolvesAll.eq h hps, ← Resolves.eq h hr]
  | _, _, .struct hfs => by rw [resolveExcept_struct, ← ResolvesFields.eq h hfs]

theorem ResolvesAll.eq (h : T.Wf) : ∀ {ts us : List Ty}, ResolvesAll T keep ts us →
    us = ts.map (T.resolveExcept keep)
  | _, _, .nil => rfl
  | _, _, .cons ht hts => by rw [Resolves.eq h ht, ResolvesAll.eq h hts, List.map_cons]

theorem ResolvesFields.eq (h : T.Wf) : ∀ {fs gs : List (String × Ty)},
    ResolvesFields T keep fs gs → gs = fs.map fun p => (p.1, T.resolveExcept keep p.2)
  | _, _, .nil => rfl
  | _, _, .cons ht hfs => by rw [Resolves.eq h ht, ResolvesFields.eq h hfs, List.map_cons]

end

theorem Wf.resolves_iff (h : T.Wf) {t u : Ty} (ht : T.Minted t) :
    Resolves T keep t u ↔ u = T.resolveExcept keep t := by
  constructor
  · exact Resolves.eq h
  · rintro rfl
    rw [resolveExcept_eq_bind]
    exact resolves_bind fun v hv => h.resolves_var v (ht v hv)

/-! ## Occurrence -/

variable {v : TyVar}

/-- Fuel beyond the rank of a variable changes nothing. -/
theorem reachesVar_fuel {rank : TyVar → Nat}
    (hr : ∀ v t, T.value? v = some t → ∀ w ∈ t.occurrences, rank (T.root w) < rank (T.root v)) :
    ∀ (n m : Nat) (w : TyVar), (T.value? w ≠ none → rank (T.root w) < n) →
      (T.value? w ≠ none → rank (T.root w) < m) → T.reachesVar v n w = T.reachesVar v m w := by
  have hzero : ∀ (m : Nat) (w : TyVar), T.value? w = none →
      T.reachesVar v m w = (T.root w == T.root v) := fun m w hw => by
    cases m with
    | zero => rfl
    | succ m => simp only [reachesVar, hw, Bool.or_false]
  intro n
  induction n with
  | zero =>
    intro m w hn _
    have hw : T.value? w = none := Classical.byContradiction fun hw => Nat.not_lt_zero _ (hn hw)
    rw [hzero 0 w hw, hzero m w hw]
  | succ n ih =>
    intro m w hn hm
    cases hw : T.value? w with
    | none => rw [hzero _ w hw, hzero m w hw]
    | some t =>
      have hn' := hn (by simp [hw])
      have hm' := hm (by simp [hw])
      obtain ⟨m, rfl⟩ := Nat.exists_eq_succ_of_ne_zero (Nat.ne_zero_of_lt hm')
      simp only [reachesVar, hw]
      congr 1
      rw [Bool.eq_iff_iff, List.any_eq_true, List.any_eq_true]
      refine exists_congr fun u => and_congr_right fun hu => ?_
      have hlt := hr w t hw u hu
      rw [ih m u (fun _ => by omega) fun _ => by omega]

/-- A variable of another class meets `v` where the type that it is bound to does. -/
theorem Wf.occurs_var (h : T.Wf) (w : TyVar) : T.occurs v (.var w) =
    (T.root w == T.root v || match T.value? w with
      | none => false
      | some t => T.occurs v t) := by
  obtain ⟨rank, hr, hlt⟩ := h.exists_rank
  have hw : T.occurs v (.var w) = T.reachesVar v T.size w := by
    simp only [occurs, Ty.occurrences, List.any_cons, List.any_nil, Bool.or_false]
  have hfuel : ∀ u, T.value? u ≠ none → rank (T.root u) < T.size := fun u hu => by
    obtain ⟨t, ht⟩ := Option.ne_none_iff_exists'.1 hu
    exact hlt u (lt_size_of_value? ht)
  have hsucc : T.reachesVar v T.size w = T.reachesVar v (T.size + 1) w :=
    reachesVar_fuel hr _ _ w (hfuel w) fun hu => Nat.lt_succ_of_lt (hfuel w hu)
  rw [hw, hsucc, reachesVar]
  rfl

theorem occurs_parts {t : Ty} (ht : ∀ w, t ≠ .var w) :
    T.occurs v t = t.parts.any (T.occurs v) := by
  rw [Bool.eq_iff_iff]
  simp only [occurs, List.any_eq_true]
  constructor
  · rintro ⟨w, hw, hr⟩
    obtain ⟨s, hs, hw⟩ := Ty.exists_mem_parts ht hw
    exact ⟨s, hs, w, hw, hr⟩
  · rintro ⟨s, hs, w, hw, hr⟩
    exact ⟨w, Ty.occurrences_of_mem_parts hs hw, hr⟩

theorem meetsAny_any {ts : List Ty} (h : ∀ t ∈ ts, Meets T v t (T.occurs v t)) :
    MeetsAny T v ts (ts.any (T.occurs v)) := by
  induction ts with
  | nil => exact .nil
  | cons t ts ih =>
    obtain ⟨ht, hts⟩ := List.forall_mem_cons.1 h
    rw [List.any_cons]
    cases ho : T.occurs v t with
    | true => exact .found ts (ho ▸ ht)
    | false => exact .next (ho ▸ ht) (ih hts)

/-- Whether a class is met in a type is known once it is of each variable. -/
theorem meets_of_vars {t : Ty}
    (h : ∀ w ∈ t.occurrences, Meets T v (.var w) (T.occurs v (.var w))) :
    Meets T v t (T.occurs v t) := by
  induction hn : t.height using Nat.strongRecOn generalizing t with
  | _ n ih =>
    subst hn
    by_cases hv : ∃ w, t = .var w
    · obtain ⟨w, rfl⟩ := hv
      exact h w (by simp [Ty.occurrences])
    · have ht : ∀ w, t ≠ .var w := fun w hw => hv ⟨w, hw⟩
      rw [occurs_parts ht]
      refine .parts ht (meetsAny_any fun s hs => ?_)
      refine ih _ (Ty.height_lt_of_mem_parts hs) (fun w hw => ?_) rfl
      exact h w (Ty.occurrences_of_mem_parts hs hw)

theorem Wf.meets_var (h : T.Wf) (hv : v < T.size) (w : TyVar) (hw : w < T.size) :
    Meets T v (.var w) (T.occurs v (.var w)) := by
  induction w using h.induct with
  | step w ih =>
    rw [h.occurs_var]
    by_cases hr : T.root w = T.root v
    · rw [beq_iff_eq.2 hr, Bool.true_or]
      exact .here hw hv hr
    · rw [beq_eq_false_iff_ne.2 hr, Bool.false_or]
      cases hs : T.value? w with
      | none => exact .unbound hw hv hr hs
      | some s =>
        refine .bound hw hv hr hs (meets_of_vars fun u hu => ?_)
        exact ih s hs u hu (h.value_lt w s hs u hu)

mutual

theorem Meets.eq (h : T.Wf) : ∀ {t : Ty} {b : Bool}, Meets T v t b → b = T.occurs v t
  | _, _, .here _ _ hr => by rw [h.occurs_var, beq_iff_eq.2 hr, Bool.true_or]
  | _, _, .bound _ _ hr ht hm => by
    rw [h.occurs_var, beq_eq_false_iff_ne.2 hr, Bool.false_or, ht]
    exact Meets.eq h hm
  | _, _, .unbound _ _ hr hn => by
    rw [h.occurs_var, beq_eq_false_iff_ne.2 hr, Bool.false_or, hn]
  | _, _, .parts ht hm => by rw [occurs_parts ht, MeetsAny.eq h hm]

theorem MeetsAny.eq (h : T.Wf) : ∀ {ts : List Ty} {b : Bool}, MeetsAny T v ts b →
    b = ts.any (T.occurs v)
  | _, _, .nil => rfl
  | _, _, .found ts hm => by rw [List.any_cons, ← Meets.eq h hm, Bool.true_or]
  | _, _, .next hm hms => by
    rw [List.any_cons, ← Meets.eq h hm, Bool.false_or, MeetsAny.eq h hms]

end

theorem Wf.meets_iff (h : T.Wf) {t : Ty} {b : Bool} (hv : v < T.size) (ht : T.Minted t) :
    Meets T v t b ↔ b = T.occurs v t := by
  constructor
  · exact Meets.eq h
  · rintro rfl
    exact meets_of_vars fun w hw => h.meets_var hv w (ht w hw)

end

end TypeInference.VarTable
