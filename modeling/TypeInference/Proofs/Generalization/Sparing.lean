import TypeInference.Proofs.Polymorphism
import TypeInference.Proofs.Unify.Run

/-!
# Variables that a table spares

`T.Avoids Q t`: what `t` resolves to mentions none of the variables `Q`. `Spares Q T T'`: on the way
from `T` to `T'` the variables `Q` stayed unbound roots, and what avoided them still does. So does a
table that mints (`Mints.spares`) or that makes types equal that avoid `Q` (`Wf.unify_spares`); a
type that is instantiated avoids `Q` if the scheme does so around its quantified variables
(`Wf.instantiate_spares`).
-/

namespace TypeInference.VarTable

/-- No variable of `Q` is in what `t` stands for. -/
def Avoids (T : VarTable) (Q : List TyVar) (t : Ty) : Prop :=
  ∀ w ∈ (T.resolve t).occurrences, w ∉ Q

/-- The variables `Q` are left alone (module doc). -/
structure Spares (Q : List TyVar) (T T' : VarTable) : Prop where
  wf : T'.Wf
  grows : T.Extends T'
  unbound : ∀ q ∈ Q, T'.Unbound q
  avoids : ∀ t, T.Avoids Q t → T'.Avoids Q t

section
variable {Q : List TyVar} {T T' T'' : VarTable} {s t : Ty} {u v w : TyVar}

/-! ## Avoidance -/

theorem avoids_iff : T.Avoids Q t ↔ ∀ v ∈ t.occurrences, T.Avoids Q (.var v) := by
  refine ⟨fun h v hv w hw => h w (mem_resolve.2 ⟨v, hv, hw⟩), fun h w hw => ?_⟩
  obtain ⟨v, hv, hw⟩ := mem_resolve.1 hw
  exact h v hv w hw

theorem Avoids.of_subset (h : T.Avoids Q t) (hs : ∀ v ∈ s.occurrences, v ∈ t.occurrences) :
    T.Avoids Q s :=
  avoids_iff.2 fun v hv => avoids_iff.1 h v (hs v hv)

theorem avoids_of_closed (h : t.occurrences = []) : T.Avoids Q t :=
  avoids_iff.2 fun v hv => by rw [h] at hv; cases hv

theorem avoids_fn {ps : List Ty} {r : Ty} :
    T.Avoids Q (.fn ps r) ↔ (∀ p ∈ ps, T.Avoids Q p) ∧ T.Avoids Q r := by
  simp only [avoids_iff (t := .fn ps r), Ty.occurrences, Ty.occurrencesAll_eq_flatMap,
    List.mem_append, List.mem_flatMap]
  refine ⟨fun h => ⟨fun p hp => avoids_iff.2 fun v hv => h v (.inl ⟨p, hp, hv⟩),
    avoids_iff.2 fun v hv => h v (.inr hv)⟩, ?_⟩
  rintro ⟨hps, hr⟩ v (⟨p, hp, hv⟩ | hv)
  · exact avoids_iff.1 (hps p hp) v hv
  · exact avoids_iff.1 hr v hv

theorem Wf.avoids_leader (h : T.Wf) : T.Avoids Q (T.leader t) ↔ T.Avoids Q t := by
  rw [Avoids, h.resolve_leader, Avoids]

theorem Wf.avoids_unbound (h : T.Wf) (hv : T.Unbound v) : T.Avoids Q (.var v) ↔ v ∉ Q := by
  rw [Avoids, h.resolve_unbound hv.value, hv.root]
  simp [Ty.occurrences]

/-- It is enough to look at the unbound roots of the table before. -/
theorem Avoids.mono (h : T.Wf) (h' : T'.Wf) (he : T.Extends T')
    (hroot : ∀ x, T.root x = x → T.value? x = none → x ∉ Q → T'.Avoids Q (.var x))
    (ht : T.Avoids Q t) : T'.Avoids Q t := by
  intro w hw
  rw [← he.resolve_resolve h h' t] at hw
  obtain ⟨x, hx, hw⟩ := mem_resolve.1 hw
  obtain ⟨hr, hv⟩ := h.of_mem_resolve hx
  exact hroot x hr hv (ht x hx) w hw

/-! ## Sparing -/

theorem Spares.refl (h : T.Wf) (hQ : ∀ q ∈ Q, T.Unbound q) : Spares Q T T :=
  ⟨h, .refl h.toLinked, hQ, fun _ => id⟩

theorem Spares.trans (h : Spares Q T T') (h' : Spares Q T' T'') : Spares Q T T'' :=
  ⟨h'.wf, h.grows.trans h'.grows, h'.unbound, fun t ht => h'.avoids t (h.avoids t ht)⟩

theorem Mints.spares (hm : T.Mints T') (h : T.Wf) (h' : T'.Wf) (hQ : ∀ q ∈ Q, T.Unbound q) :
    Spares Q T T' where
  wf := h'
  grows := hm.extends h.toLinked
  unbound q hq := hm.unbound (hQ q hq)
  avoids t ht := by rwa [Avoids, hm.resolve_eq h h']

/-- A variable that was not minted before avoids what was. -/
theorem Mints.avoids_new (hm : T.Mints T') (h' : T'.Wf) (hQ : ∀ q ∈ Q, T.Unbound q)
    (hw : T.size ≤ w) : T'.Avoids Q (.var w) := by
  intro x hx hq
  have hv : T'.value? w = none := by rw [hm.value, value?_of_size_le hw]
  rw [h'.resolve_unbound hv, hm.root, root_of_size_le hw] at hx
  obtain rfl := List.mem_singleton.1 hx
  exact Nat.not_lt.2 hw (hQ x hq).lt

theorem Wf.unite_spares (h : T.Wf) (hQ : ∀ q ∈ Q, T.Unbound q) (hv : T.Unbound v) (hw : T.Unbound w)
    (hne : v ≠ w) (hvQ : v ∉ Q) (hwQ : w ∉ Q) : Spares Q T (T.unite v w) := by
  have hr : T.root v ≠ T.root w := by rwa [hv.root, hw.root]
  obtain ⟨hu, he, -⟩ := h.unite hv.lt hw.lt hr hv.value hw.value
  obtain ⟨-, hval, l, k, hlk, hroot⟩ := h.unite_spec hv.lt hw.lt hr hv.value hw.value
  rw [hv.root, hw.root] at hlk
  have hl : l ∉ Q := by rcases hlk with ⟨rfl, rfl⟩ | ⟨rfl, rfl⟩ <;> assumption
  have hk : k ∉ Q := by rcases hlk with ⟨rfl, rfl⟩ | ⟨rfl, rfl⟩ <;> assumption
  refine ⟨hu, he, fun q hq => ⟨?_, ?_, ?_⟩, fun t => Avoids.mono h hu he fun x hx hxv hxQ => ?_⟩
  · rw [size_unite]
    exact (hQ q hq).lt
  · rw [hroot, (hQ q hq).root, if_neg fun hql : q = l => hl (hql ▸ hq)]
  · rw [hval, (hQ q hq).value]
  · intro y hy
    rw [hu.resolve_unbound (by rw [hval, hxv]), hroot, hx] at hy
    obtain rfl := List.mem_singleton.1 hy
    split <;> assumption

theorem Wf.assign_spares (h : T.Wf) (hQ : ∀ q ∈ Q, T.Unbound q) (hv : T.Unbound v) (hvQ : v ∉ Q)
    (ht : T.Avoids Q t) (ha : (T.assign v t).Wf ∧ T.Extends (T.assign v t))
    (ho : v ∉ (T.resolve t).occurrences) : Spares Q T (T.assign v t) := by
  have hroot := h.root_assign t hv.lt
  have hval := h.value?_assign t hv.lt
  have hother : ∀ x, T.root x = x → T.value? x = none → x ≠ v →
      (T.assign v t).resolve (.var x) = .var x := fun x hx hxv hne => by
    rw [ha.1.resolve_unbound (by rw [hval, hx, hv.root, if_neg hne, hxv]), hroot, hx]
  refine ⟨ha.1, ha.2, fun q hq => ⟨?_, ?_, ?_⟩,
    fun t => Avoids.mono h ha.1 ha.2 fun x hx hxv hxQ => ?_⟩
  · rw [size_assign]
    exact (hQ q hq).lt
  · rw [hroot, (hQ q hq).root]
  · rw [hval, (hQ q hq).root, hv.root, if_neg fun hqv : q = v => hvQ (hqv ▸ hq), (hQ q hq).value]
  · intro y hy
    by_cases hxv' : x = v
    · -- the class takes the type, none of whose variables is touched
      subst hxv'
      rw [ha.1.resolve_bound (by rw [hval, if_pos rfl]), ← ha.2.resolve_resolve h ha.1] at hy
      obtain ⟨z, hz, hy⟩ := mem_resolve.1 hy
      obtain ⟨hzr, hzv⟩ := h.of_mem_resolve hz
      rw [hother z hzr hzv fun hzx => ho (hzx ▸ hz)] at hy
      exact List.mem_singleton.1 hy ▸ ht z hz
    · rw [hother x hx hxv hxv'] at hy
      exact List.mem_singleton.1 hy ▸ hxQ

end

end TypeInference.VarTable

/-! ## Unification -/

namespace TypeInference.Unify

open VarTable

variable {Q : List TyVar} {o : Origin} {T T' : VarTable} {a b : Ty}

/-- A leader that is a variable is unbound, and not in `Q` if the type avoids `Q`. -/
theorem unbound_of_leader (h : T.Wf) {v : TyVar} (hl : T.leader a = .var v) (hv : v < T.size)
    (ha : T.Avoids Q a) : T.Unbound v ∧ v ∉ Q := by
  obtain ⟨hr, hn⟩ := h.of_leader_eq_var hl
  have hu : T.Unbound v := ⟨hv, hr, hn⟩
  rw [← h.avoids_leader, hl, h.avoids_unbound hu] at ha
  exact ⟨hu, ha⟩

/-- A run over types that avoid `Q` spares `Q`. -/
theorem Run.spares {ps : List (Ty × Ty)} {e : Option TypeError} (hr : Run o T ps e T') (h : T.Wf)
    (hQ : ∀ q ∈ Q, T.Unbound q) (hps : ∀ p ∈ ps, T.Avoids Q p.1 ∧ T.Avoids Q p.2) :
    Spares Q T T' := by
  induction hr with
  | done T => exact .refl h hQ
  | parts hc _ ih =>
    obtain ⟨⟨ha, hb⟩, hps⟩ := List.forall_mem_cons.1 hps
    refine ih h hQ (List.forall_mem_append.2 ⟨fun q hq => ?_, hps⟩)
    obtain ⟨h1, h2⟩ := (Ty.confront_eq_parts.1 hc).mem_parts hq
    exact ⟨(h.avoids_leader.2 ha).of_subset fun _ => Ty.occurrences_of_mem_parts h1,
      (h.avoids_leader.2 hb).of_subset fun _ => Ty.occurrences_of_mem_parts h2⟩
  | merge hc hv hw _ ih =>
    obtain ⟨⟨ha, hb⟩, hps⟩ := List.forall_mem_cons.1 hps
    obtain ⟨hla, hlb, hne⟩ := Ty.confront_eq_merge.1 hc
    obtain ⟨hv, hvQ⟩ := unbound_of_leader h hla hv ha
    obtain ⟨hw, hwQ⟩ := unbound_of_leader h hlb hw hb
    have hs := h.unite_spares hQ hv hw hne hvQ hwQ
    exact hs.trans (ih hs.wf hs.unbound fun p hp =>
      ⟨hs.avoids _ (hps p hp).1, hs.avoids _ (hps p hp).2⟩)
  | @assign T T' a b t v ps e hc hv ht ho _ ih =>
    obtain ⟨⟨ha, hb⟩, hps⟩ := List.forall_mem_cons.1 hps
    have hg := assign_of_assign h hc hv ht ho
    obtain ⟨⟨hr, hn⟩, -⟩ := unbound_of_assign h hc
    have ho' : v ∉ (T.resolve t).occurrences := fun hm => by
      rw [← hr, ← h.occurs_iff hn, ho] at hm
      cases hm
    have hQ' : v ∉ Q ∧ T.Avoids Q t := by
      obtain ⟨⟨hl, rfl⟩ | ⟨rfl, hl⟩, -⟩ := Ty.confront_eq_assign.1 hc
      · exact ⟨(unbound_of_leader h hl hv ha).2, h.avoids_leader.2 hb⟩
      · exact ⟨(unbound_of_leader h hl hv hb).2, h.avoids_leader.2 ha⟩
    have hs := h.assign_spares hQ ⟨hv, hr, hn⟩ hQ'.1 hQ'.2 hg ho'
    exact hs.trans (ih hs.wf hs.unbound fun p hp =>
      ⟨hs.avoids _ (hps p hp).1, hs.avoids _ (hps p hp).2⟩)
  | occurs ps hc ho => exact .refl h hQ
  | clash ps hc => exact .refl h hQ

end TypeInference.Unify

namespace TypeInference.VarTable

variable {Q : List TyVar} {T : VarTable}

/-- Making two types equal that avoid `Q` spares `Q`, whether it succeeds or fails. -/
theorem Wf.unify_spares (h : T.Wf) (hQ : ∀ q ∈ Q, T.Unbound q) {a b : Ty} (ha : T.Avoids Q a)
    (hb : T.Avoids Q b) (o : Origin) : (unify a b o).Ends T (fun _ T' => Spares Q T T')
      (fun _ T' => Spares Q T T') fun _ => True :=
  (h.unify_ends a b o).mono (fun _ _ hr => hr.spares h hQ (by simp [ha, hb]))
    (fun _ _ hr => hr.spares h hQ (by simp [ha, hb])) fun _ _ => trivial

/-! ## Instantiation -/

/-- The variables of a scheme's type around its quantified ones avoid `Q`. -/
def SchemeAvoids (T : VarTable) (Q : List TyVar) (s : Scheme) : Prop :=
  ∀ v ∈ s.ty.occurrences, v ∉ s.vars → T.Avoids Q (.var v)

theorem SchemeAvoids.mono {T' : VarTable} {s : Scheme} (h : T.SchemeAvoids Q s)
    (hs : Spares Q T T') : T'.SchemeAvoids Q s :=
  fun v hv hn => hs.avoids _ (h v hv hn)

/-- A variable that is not kept in an expanded type comes from one that resolves to all it does. -/
theorem Wf.of_mem_expand (h : T.Wf) {keep : List TyVar} {t : Ty} {y : TyVar}
    (hy : y ∈ (T.expand keep t).occurrences) (hk : y ∉ keep) : ∃ u ∈ t.occurrences, u ∉ keep ∧
      ∀ w ∈ (T.resolve (.var y)).occurrences, w ∈ (T.resolve (.var u)).occurrences := by
  rw [expand_eq_bind, Ty.mem_occurrences_bind] at hy
  obtain ⟨u, hu, hy⟩ := hy
  suffices hs : u ∉ keep ∧
      ∀ w ∈ (T.resolve (.var y)).occurrences, w ∈ (T.resolve (.var u)).occurrences from
    ⟨u, hu, hs⟩
  clear hu
  induction u using h.induct with
  | step u ih =>
    rw [h.expand_var] at hy
    split at hy
    · exact absurd (List.mem_singleton.1 hy ▸ ‹u ∈ keep›) hk
    · refine ⟨‹_›, ?_⟩
      cases hv : T.value? u with
      | none =>
        rw [hv] at hy
        obtain rfl := List.mem_singleton.1 hy
        exact fun _ => id
      | some t =>
        rw [hv] at hy
        obtain ⟨x, hx, hy⟩ := Ty.mem_occurrences_bind.1 hy
        rw [h.resolve_bound hv]
        exact fun w hw => mem_resolve.2 ⟨x, hx, (ih t hv x hx hy).2 w hw⟩

/-- An instance of a scheme that avoids `Q` around its quantified variables avoids `Q`. -/
theorem Wf.instantiate_spares (h : T.Wf) (hQ : ∀ q ∈ Q, T.Unbound q) {s : Scheme}
    (hs : T.SchemeAvoids Q s) : (instantiate s).Ends T
      (fun t T' => Spares Q T T' ∧ T'.Avoids Q t) (fun _ _ => False) fun _ => True := by
  refine (h.instantiate_ends s).mono (fun t T' ⟨h', hm, known, hc, hi⟩ => ?_) (fun _ _ => id)
    fun _ _ => trivial
  have hsp := hm.spares h h' hQ
  refine ⟨hsp, ?_⟩
  by_cases hv : s.vars = []
  · rw [hi.mono hv]
    exact avoids_iff.2 fun v hv' => hsp.avoids _ (hs v hv' (by simp [hv]))
  · refine avoids_iff.2 fun x hx => ?_
    obtain ⟨hx, hn, -⟩ | ⟨v, u, hu, hx⟩ := hi.of_mem hv hx
    · obtain ⟨y, hy, hyv, hsub⟩ := h.of_mem_expand hx hn
      exact hsp.avoids _ fun w hw => hs y hy hyv w (hsub w hw)
    · -- a quantified variable was replaced by a new one
      obtain hn | ⟨w, rfl, hw, -⟩ := hc.new v u hu
      · cases hn
      · exact List.mem_singleton.1 hx ▸ hm.avoids_new h' hQ hw

end TypeInference.VarTable
