import TypeInference.Proofs.VarTable.Classes
import TypeInference.Proofs.Ty.Parts
import TypeInference.VarTable.Resolve

/-!
# Reading types through a well-formed table

`Wf T`: the table is linked, values speak of minted variables, no value is a variable, and bindings
form no cycle. The readings of a type carry fuel for the longest chain of bindings; on a well-formed
table the fuel never runs out, and each reading obeys one equation on variables:

* `Wf.leader_var`, `Wf.expand_var`, `Wf.resolve_var`;
* `Wf.occurs_iff`: for an unbound class, `occurs` is membership in the resolved type.

`Wf.induct` is induction on a type through its bindings.
-/

namespace TypeInference.VarTable

/-- The type mentions minted variables only. -/
def Minted (T : VarTable) (t : Ty) : Prop := ∀ v ∈ t.occurrences, v < T.size

/-- The variable is minted, unbound and the root of its class. -/
structure Unbound (T : VarTable) (v : TyVar) : Prop where
  lt : v < T.size
  root : T.root v = v
  value : T.value? v = none

instance (T : VarTable) (t : Ty) : Decidable (T.Minted t) :=
  inferInstanceAs (Decidable (∀ v ∈ t.occurrences, v < T.size))

/-- Minted variables only, and no cycle, neither of links nor of bindings. -/
structure Wf (T : VarTable) : Prop extends Linked T where
  value_lt : ∀ v t, T.value? v = some t → T.Minted t
  value_ne_var : ∀ v t, T.value? v = some t → ∀ w, t ≠ .var w
  acyclic : ∃ rank : TyVar → Nat,
    ∀ v t, T.value? v = some t → ∀ w ∈ t.occurrences, rank (T.root w) < rank (T.root v)

theorem wf_empty : Wf ∅ where
  toLinked := linked_empty
  value_lt v _ h := by rw [value?_of_size_le (Nat.zero_le v)] at h; cases h
  value_ne_var v _ h := by rw [value?_of_size_le (Nat.zero_le v)] at h; cases h
  acyclic := ⟨fun _ => 0, fun v _ h => by rw [value?_of_size_le (Nat.zero_le v)] at h; cases h⟩

section
variable {T : VarTable} (h : T.Wf)
include h

/-- Bindings fall along a ranking that stays below the number of variables. -/
theorem Wf.exists_rank : ∃ rank : TyVar → Nat,
    (∀ v t, T.value? v = some t → ∀ w ∈ t.occurrences, rank (T.root w) < rank (T.root v)) ∧
      ∀ v < T.size, rank (T.root v) < T.size := by
  obtain ⟨rank, hr⟩ := h.acyclic
  let R : Nat → Nat → Prop := fun r s =>
    ∃ t, T.value? r = some t ∧ ∃ w ∈ t.occurrences, T.root w = s ∧ T.root r = r
  have hR : ∀ r s, R r s → s < T.size ∧ rank s < rank r := fun r s ⟨t, ht, w, hw, hws, hrr⟩ => by
    subst hws
    exact ⟨h.root_lt (h.value_lt r t ht w hw), hrr ▸ hr r t ht w hw⟩
  obtain ⟨rank', h1, h2⟩ := exists_rank_lt hR
  refine ⟨rank', fun v t ht w hw => h1 _ _ ⟨t, ?_, w, hw, rfl, h.root_root v⟩, fun v hv => ?_⟩
  · rwa [h.value?_root]
  · exact h2 _ (h.root_lt hv)

/-! ## The outermost form -/

theorem Wf.leader_var (v : TyVar) :
    T.leader (.var v) = match T.value? v with
      | none => .var (T.root v)
      | some t => t := by
  cases hv : T.value? v with
  | none =>
    cases hs : T.size with
    | zero => simp [leader, hs, leaderVar]
    | succ n => simp [leader, hs, leaderVar, hv]
  | some t =>
    obtain ⟨n, hn⟩ := Nat.exists_eq_succ_of_ne_zero (Nat.ne_zero_of_lt (lt_size_of_value? hv))
    have hne := h.value_ne_var v t hv
    cases t with
    | var w => exact absurd rfl (hne w)
    | con n => simp [leader, hn, leaderVar, hv]
    | ptr t => simp [leader, hn, leaderVar, hv]
    | fn ps r => simp [leader, hn, leaderVar, hv]
    | struct n fs => simp [leader, hn, leaderVar, hv]

theorem Wf.minted_leader {t : Ty} (ht : T.Minted t) : T.Minted (T.leader t) := by
  cases t with
  | var v =>
    rw [h.leader_var]
    cases hv : T.value? v with
    | none =>
      exact fun w hw => List.mem_singleton.1 hw ▸ h.root_lt (ht v (by simp [Ty.occurrences]))
    | some t => exact h.value_lt v t hv
  | _ => exact ht

/-- A property of variables and values is one of leaders. -/
theorem Wf.leader_of {P : Ty → Prop} (hvar : ∀ v, P (.var v))
    (hval : ∀ v t, T.value? v = some t → P t) {t : Ty} (ht : P t) : P (T.leader t) := by
  cases t with
  | var v =>
    rw [h.leader_var]
    cases hv : T.value? v with
    | none => exact hvar _
    | some t => exact hval v t hv
  | _ => exact ht

theorem Wf.height_leader_le {n : Nat} (hn : T.Low n) {t : Ty} (ht : t.height ≤ n) :
    (T.leader t).height ≤ n :=
  h.leader_of (P := fun t => t.height ≤ n) (fun _ => Nat.zero_le n) hn ht

/-- A leader that is a variable is the root of an unbound class. -/
theorem Wf.of_leader_eq_var {t : Ty} {w : TyVar} (ht : T.leader t = .var w) :
    T.root w = w ∧ T.value? w = none := by
  cases t with
  | var v =>
    rw [h.leader_var] at ht
    cases hv : T.value? v with
    | none =>
      rw [hv] at ht
      simp only [Ty.var.injEq] at ht
      subst ht
      exact ⟨h.root_root v, by rw [h.value?_root, hv]⟩
    | some t =>
      rw [hv] at ht
      exact absurd ht (h.value_ne_var v t hv w)
  | con n => simp [leader] at ht
  | ptr t => simp [leader] at ht
  | fn ps r => simp [leader] at ht
  | struct n fs => simp [leader] at ht

/-! ## All levels -/

omit h in
theorem expandVar_of_unbound {v : TyVar} (hv : T.value? v = none) (keep : List TyVar) (n : Nat) :
    T.expandVar keep n v = .var v := by
  cases n with
  | zero => rfl
  | succ n => simp [expandVar, hv]

omit h in
/-- Fuel beyond the rank of a variable changes nothing. -/
theorem expandVar_fuel {rank : TyVar → Nat}
    (hr : ∀ v t, T.value? v = some t → ∀ w ∈ t.occurrences, rank (T.root w) < rank (T.root v))
    (keep : List TyVar) : ∀ (n m : Nat) (v : TyVar),
      (T.value? v ≠ none → rank (T.root v) < n) → (T.value? v ≠ none → rank (T.root v) < m) →
      T.expandVar keep n v = T.expandVar keep m v := by
  intro n
  induction n with
  | zero =>
    intro m v hn _
    have hv : T.value? v = none := Classical.byContradiction fun hv => Nat.not_lt_zero _ (hn hv)
    rw [expandVar_of_unbound hv, expandVar_of_unbound hv]
  | succ n ih =>
    intro m v hn hm
    cases hv : T.value? v with
    | none => rw [expandVar_of_unbound hv, expandVar_of_unbound hv]
    | some t =>
      have hn' := hn (by simp [hv])
      have hm' := hm (by simp [hv])
      obtain ⟨m, rfl⟩ := Nat.exists_eq_succ_of_ne_zero (Nat.ne_zero_of_lt hm')
      simp only [expandVar, hv]
      split
      · rfl
      · refine Ty.bind_congr fun w hw => ih m w (fun _ => ?_) (fun _ => ?_)
        · have := hr v t hv w hw; omega
        · have := hr v t hv w hw; omega

theorem Wf.expandVar_size (keep : List TyVar) (v : TyVar) :
    T.expandVar keep T.size v = if v ∈ keep then .var v else
      match T.value? v with
      | none => .var v
      | some t => T.expand keep t := by
  obtain ⟨rank, hr, hlt⟩ := h.exists_rank
  cases hv : T.value? v with
  | none => simp [expandVar_of_unbound hv]
  | some t =>
    have hvs := lt_size_of_value? hv
    obtain ⟨n, hn⟩ := Nat.exists_eq_succ_of_ne_zero (Nat.ne_zero_of_lt hvs)
    rw [hn, expandVar]
    simp only [hv]
    split
    · rfl
    · refine Ty.bind_congr fun w hw => expandVar_fuel hr keep _ _ w (fun _ => ?_) (fun hw' => ?_)
      · have h1 := hr v t hv w hw
        have h2 := hlt v hvs
        omega
      · exact hlt w (h.value_lt v t hv w hw)

theorem Wf.expand_var (keep : List TyVar) (v : TyVar) :
    T.expand keep (.var v) = if v ∈ keep then .var v else
      match T.value? v with
      | none => .var v
      | some t => T.expand keep t := h.expandVar_size keep v

omit h in
theorem expand_eq_bind (keep : List TyVar) (t : Ty) :
    T.expand keep t = t.bind fun v => T.expand keep (.var v) := rfl

omit h in
theorem resolveExcept_eq_bind (keep : List TyVar) (t : Ty) :
    T.resolveExcept keep t = t.bind fun v => T.resolveExcept keep (.var v) := by
  simp only [resolveExcept, expand_eq_bind keep t, Ty.bind_bind]

omit h in
theorem resolve_eq_bind (t : Ty) : T.resolve t = t.bind fun v => T.resolve (.var v) :=
  resolveExcept_eq_bind [] t

theorem Wf.resolveExcept_var (keep : List TyVar) (v : TyVar) :
    T.resolveExcept keep (.var v) = if v ∈ keep then .var v else
      match T.value? v with
      | none => .var (T.root v)
      | some t => T.resolveExcept keep t := by
  simp only [resolveExcept, h.expand_var keep v]
  split
  · rename_i hk
    simp [Ty.bind, hk]
  · rename_i hk
    split
    · simp [Ty.bind, hk]
    · rfl

theorem Wf.resolve_var (v : TyVar) :
    T.resolve (.var v) = match T.value? v with
      | none => .var (T.root v)
      | some t => T.resolve t := by
  simpa [resolve] using h.resolveExcept_var [] v

theorem Wf.resolve_unbound {v : TyVar} (hv : T.value? v = none) :
    T.resolve (.var v) = .var (T.root v) := by
  rw [h.resolve_var, hv]

theorem Wf.resolve_bound {v : TyVar} {t : Ty} (hv : T.value? v = some t) :
    T.resolve (.var v) = T.resolve t := by
  rw [h.resolve_var, hv]

@[simp] theorem Wf.resolve_leader (t : Ty) : T.resolve (T.leader t) = T.resolve t := by
  cases t with
  | var v =>
    rw [h.leader_var]
    cases hv : T.value? v with
    | none => rw [h.resolve_unbound hv, h.resolve_unbound (h.value?_root v ▸ hv), h.root_root]
    | some t => rw [h.resolve_bound hv]
  | _ => rfl

/-! ## Induction through bindings -/

/-- Induction on a variable through its bindings. -/
theorem Wf.induct {motive : TyVar → Prop}
    (step : ∀ v, (∀ t, T.value? v = some t → ∀ w ∈ t.occurrences, motive w) → motive v)
    (v : TyVar) : motive v := by
  obtain ⟨rank, hr⟩ := h.acyclic
  induction hn : rank (T.root v) using Nat.strongRecOn generalizing v with
  | _ n ih =>
    subst hn
    exact step v fun t ht w hw => ih _ (hr v t ht w hw) w rfl

omit h in
theorem mem_resolve {t : Ty} {w : TyVar} : w ∈ (T.resolve t).occurrences ↔
    ∃ v ∈ t.occurrences, w ∈ (T.resolve (.var v)).occurrences := by
  rw [resolve_eq_bind, Ty.mem_occurrences_bind]

/-- A resolved type speaks of roots of unbound classes only. -/
theorem Wf.of_mem_resolve {t : Ty} {w : TyVar} (hw : w ∈ (T.resolve t).occurrences) :
    T.root w = w ∧ T.value? w = none := by
  obtain ⟨v, -, hw⟩ := mem_resolve.1 hw
  induction v using h.induct with
  | step v ih =>
    cases hv : T.value? v with
    | none =>
      rw [h.resolve_unbound hv] at hw
      obtain rfl := List.mem_singleton.1 hw
      exact ⟨h.root_root v, by rw [h.value?_root, hv]⟩
    | some t =>
      rw [h.resolve_bound hv] at hw
      obtain ⟨u, hu, hw⟩ := mem_resolve.1 hw
      exact ih t hv u hu hw

/-- Variables that a table gives the same meaning to resolve alike. -/
theorem Wf.resolve_root (v : TyVar) : T.resolve (.var (T.root v)) = T.resolve (.var v) := by
  rw [h.resolve_var, h.resolve_var v, h.value?_root, h.root_root]

/-- Resolving twice is resolving once. -/
theorem Wf.resolve_resolve (t : Ty) : T.resolve (T.resolve t) = T.resolve t := by
  rw [resolve_eq_bind (T.resolve t)]
  refine (Ty.bind_congr fun w hw => ?_).trans (Ty.bind_var _)
  obtain ⟨hr, hv⟩ := h.of_mem_resolve hw
  rw [h.resolve_unbound hv, hr]

/-- A resolved type over minted variables mentions minted variables. -/
theorem Wf.minted_resolve {t : Ty} (ht : T.Minted t) : T.Minted (T.resolve t) := by
  intro w hw
  obtain ⟨v, hv, hw⟩ := mem_resolve.1 hw
  replace ht := ht v hv
  clear hv
  induction v using h.induct with
  | step v ih =>
    cases hv : T.value? v with
    | none =>
      rw [h.resolve_unbound hv] at hw
      obtain rfl := List.mem_singleton.1 hw
      exact h.root_lt ht
    | some t =>
      rw [h.resolve_bound hv] at hw
      obtain ⟨u, hu, hw⟩ := mem_resolve.1 hw
      exact ih t hv u hu hw (h.value_lt v t hv u hu)

/-- Expanding a type over minted variables leaves minted variables. -/
theorem Wf.minted_expand {t : Ty} (ht : T.Minted t) (keep : List TyVar) :
    T.Minted (T.expand keep t) := by
  intro w hw
  rw [expand_eq_bind] at hw
  obtain ⟨v, hv, hw⟩ := Ty.mem_occurrences_bind.1 hw
  replace ht := ht v hv
  clear hv
  induction v using h.induct with
  | step v ih =>
    rw [h.expand_var] at hw
    split at hw
    · obtain rfl := List.mem_singleton.1 hw
      exact ht
    · cases hv : T.value? v with
      | none =>
        rw [hv] at hw
        obtain rfl := List.mem_singleton.1 hw
        exact ht
      | some t =>
        rw [hv] at hw
        replace hw : w ∈ (T.expand keep t).occurrences := hw
        rw [expand_eq_bind] at hw
        obtain ⟨u, hu, hw⟩ := Ty.mem_occurrences_bind.1 hw
        exact ih t hv u hu hw (h.value_lt v t hv u hu)

/-- Resolving a type passes each variable at most once on the way down. -/
theorem Wf.height_resolve_le {n : Nat} (hn : T.Low n) (t : Ty) :
    (T.resolve t).height ≤ t.height + T.size * n := by
  obtain ⟨rank, hr, hlt⟩ := h.exists_rank
  have hvar : ∀ v, (T.resolve (.var v)).height ≤ (rank (T.root v) + 1) * n ∧
      (T.resolve (.var v)).height ≤ T.size * n := by
    intro v
    induction v using h.induct with
    | step v ih =>
      cases hv : T.value? v with
      | none => simp [h.resolve_unbound hv, Ty.height]
      | some t =>
        have hb : (T.resolve t).height ≤ t.height + rank (T.root v) * n := by
          rw [resolve_eq_bind]
          exact Ty.height_bind_le_add fun w hw => Nat.le_trans (ih t hv w hw).1
            (Nat.mul_le_mul_right _ (hr v t hv w hw))
        have ht := hn v t hv
        have hle : (T.resolve t).height ≤ (rank (T.root v) + 1) * n := by
          rw [Nat.succ_mul]
          omega
        rw [h.resolve_bound hv]
        exact ⟨hle, Nat.le_trans hle (Nat.mul_le_mul_right _ (hlt v (lt_size_of_value? hv)))⟩
  rw [resolve_eq_bind]
  exact Ty.height_bind_le_add fun v _ => (hvar v).2

/-! ## Occurrence -/

/-- Enough fuel given, an unbound class is reached from `w` exactly if `w` resolves to a type that
mentions its root. -/
theorem Wf.reachesVar_iff {rank : TyVar → Nat}
    (hr : ∀ v t, T.value? v = some t → ∀ w ∈ t.occurrences, rank (T.root w) < rank (T.root v))
    {v : TyVar} (hv : T.value? v = none) : ∀ (n : Nat) (w : TyVar),
      (T.value? w ≠ none → rank (T.root w) < n) →
      (T.reachesVar v n w = true ↔ T.root v ∈ (T.resolve (.var w)).occurrences) := by
  intro n
  induction n with
  | zero =>
    intro w hn
    have hw : T.value? w = none := Classical.byContradiction fun hw => Nat.not_lt_zero _ (hn hw)
    simp only [reachesVar, beq_iff_eq, h.resolve_unbound hw, Ty.occurrences, List.mem_singleton]
    exact eq_comm
  | succ n ih =>
    intro w hn
    cases hw : T.value? w with
    | none =>
      simp only [reachesVar, hw, beq_iff_eq, h.resolve_unbound hw, Ty.occurrences, Bool.or_false,
        List.mem_singleton]
      exact eq_comm
    | some t =>
      have hne : T.root w ≠ T.root v := fun he => by
        rw [value?_congr he, hv] at hw
        cases hw
      have hlt := hn (by simp [hw])
      simp only [reachesVar, hw, beq_iff_eq, hne, Bool.or_eq_true, false_or, List.any_eq_true]
      rw [h.resolve_bound hw, mem_resolve]
      refine exists_congr fun u => and_congr_right fun hu => ih u fun _ => ?_
      have := hr w t hw u hu
      omega

theorem Wf.reachesVar_size_iff {v : TyVar} (hv : T.value? v = none) (w : TyVar) :
    T.reachesVar v T.size w = true ↔ T.root v ∈ (T.resolve (.var w)).occurrences := by
  obtain ⟨rank, hr, hlt⟩ := h.exists_rank
  refine h.reachesVar_iff hr hv _ w fun hw => hlt w ?_
  obtain ⟨t, ht⟩ := Option.ne_none_iff_exists'.1 hw
  exact lt_size_of_value? ht

theorem Wf.occurs_iff {v : TyVar} (hv : T.value? v = none) (t : Ty) :
    T.occurs v t = true ↔ T.root v ∈ (T.resolve t).occurrences := by
  rw [mem_resolve]
  simp only [occurs, List.any_eq_true]
  exact exists_congr fun u => and_congr_right fun _ => h.reachesVar_size_iff hv u

end

end TypeInference.VarTable
