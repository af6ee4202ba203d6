import TypeInference.Proofs.VarTable.Resolve

/-!
# How a table grows

`Extends T T'`: variables that share a class in `T` share one in `T'`, and what is bound in `T` is
bound to the same type in `T'`. Everything read off a table is stable along it: a known outermost
form stays (`Extends.leader_eq`), and resolving under `T'` can start from what `T` resolves
(`Extends.resolve_resolve`), so a later resolution is a replacement of the variables of an earlier
one.

`mint`, `unite` and `assign` keep a table well-formed and extend it: `Wf.mint`, `Wf.unite`,
`Wf.assign`. The last two need what unification establishes first: unbound classes, and for `assign`
that the class does not occur in the type.
-/

namespace TypeInference.VarTable

/-- What `T` knows, `T'` knows. -/
structure Extends (T T' : VarTable) : Prop where
  size_le : T.size ≤ T'.size
  root_root : ∀ v, T'.root (T.root v) = T'.root v
  value : ∀ v t, T.value? v = some t → T'.value? v = some t

theorem Extends.refl {T : VarTable} (h : T.Linked) : T.Extends T :=
  ⟨Nat.le_refl _, h.root_root, fun _ _ ht => ht⟩

theorem Extends.trans {T T' T'' : VarTable} (h : T.Extends T') (h' : T'.Extends T'') :
    T.Extends T'' where
  size_le := Nat.le_trans h.size_le h'.size_le
  root_root v := by rw [← h'.root_root (T.root v), h.root_root, h'.root_root]
  value v t ht := h'.value v t (h.value v t ht)

theorem Extends.root_congr {T T' : VarTable} (h : T.Extends T') {v w : TyVar}
    (hr : T.root v = T.root w) : T'.root v = T'.root w := by
  rw [← h.root_root v, hr, h.root_root]

theorem Minted.mono {T T' : VarTable} {t : Ty} (h : T.Minted t) (hs : T.size ≤ T'.size) :
    T'.Minted t := fun v hv => Nat.lt_of_lt_of_le (h v hv) hs

theorem resolve_bind {T : VarTable} (t : Ty) (f : TyVar → Ty) :
    T.resolve (t.bind f) = t.bind fun v => T.resolve (f v) := by
  rw [resolve_eq_bind, Ty.bind_bind]
  exact Ty.bind_congr fun v _ => (resolve_eq_bind (f v)).symm

theorem Wf.resolve_congr {T : VarTable} (h : T.Wf) {v w : TyVar} (hr : T.root v = T.root w) :
    T.resolve (.var v) = T.resolve (.var w) := by
  rw [← h.resolve_root v, hr, h.resolve_root]

section
variable {T T' : VarTable} (h : T.Wf) (h' : T'.Wf) (he : T.Extends T')
include h h' he

theorem Extends.resolve_resolve_var (v : TyVar) :
    T'.resolve (T.resolve (.var v)) = T'.resolve (.var v) := by
  induction v using h.induct with
  | step v ih =>
    cases hv : T.value? v with
    | none => rw [h.resolve_unbound hv, h'.resolve_congr (he.root_root v)]
    | some t =>
      rw [h.resolve_bound hv, h'.resolve_bound (he.value v t hv), resolve_eq_bind t, resolve_bind,
        resolve_eq_bind t]
      exact Ty.bind_congr fun w hw => ih t hv w hw

/-- Resolving first under the smaller table makes no difference. -/
theorem Extends.resolve_resolve (t : Ty) : T'.resolve (T.resolve t) = T'.resolve t := by
  rw [resolve_eq_bind t, resolve_bind, resolve_eq_bind t]
  exact Ty.bind_congr fun v _ => he.resolve_resolve_var h h' v

theorem Extends.resolve_leader (t : Ty) : T'.resolve (T.leader t) = T'.resolve t := by
  rw [← he.resolve_resolve h h', h.resolve_leader, he.resolve_resolve h h']

/-- A known outermost form stays. -/
theorem Extends.leader_eq {t : Ty} (ht : ∀ v, T.leader t ≠ .var v) : T'.leader t = T.leader t := by
  cases t with
  | var v =>
    rw [h.leader_var] at ht ⊢
    cases hv : T.value? v with
    | none => exact absurd rfl (hv ▸ ht (T.root v))
    | some t => rw [h'.leader_var, he.value v t hv]
  | _ => rfl

end

/-! ## A new variable -/

section
variable {T : VarTable} (h : T.Wf)
include h

theorem Wf.mint : T.mint.2.Wf where
  toLinked := h.toLinked.mint
  value_lt v t ht w hw := by
    rw [h.value?_mint] at ht
    rw [size_mint]
    exact Nat.lt_succ_of_lt (h.value_lt v t ht w hw)
  value_ne_var v t ht := h.value_ne_var v t (h.value?_mint v ▸ ht)
  acyclic := by
    obtain ⟨rank, hr⟩ := h.acyclic
    refine ⟨rank, fun v t ht w hw => ?_⟩
    rw [h.root_mint, h.root_mint]
    exact hr v t (h.value?_mint v ▸ ht) w hw

theorem Wf.extends_mint : T.Extends T.mint.2 where
  size_le := by simp
  root_root v := by rw [h.root_mint, h.root_mint, h.root_root]
  value v t ht := by rwa [h.value?_mint]

/-! ## A merger -/

theorem Wf.unite {v w : TyVar} (hv : v < T.size) (hw : w < T.size) (hne : T.root v ≠ T.root w)
    (hvv : T.value? v = none) (hvw : T.value? w = none) :
    (T.unite v w).Wf ∧ T.Extends (T.unite v w) ∧ (T.unite v w).root v = (T.unite v w).root w := by
  obtain ⟨hl, hval, l, k, hlk, hroot⟩ := h.unite_spec hv hw hne hvv hvw
  have hkv : T.value? k = none := by
    rcases hlk with ⟨-, rfl⟩ | ⟨-, rfl⟩ <;> rw [h.value?_root] <;> assumption
  have hll : T.value? l = none := by
    rcases hlk with ⟨rfl, -⟩ | ⟨rfl, -⟩ <;> rw [h.value?_root] <;> assumption
  refine ⟨⟨hl, fun u t ht x hx => ?_, fun u t ht => h.value_ne_var u t (hval u ▸ ht), ?_⟩,
    ⟨by simp, fun u => ?_, fun u t ht => by rwa [hval]⟩, ?_⟩
  · rw [size_unite]
    exact h.value_lt u t (hval u ▸ ht) x hx
  · -- neither of the two classes binds anything, so the new class can be ranked lowest
    obtain ⟨rank, hr⟩ := h.acyclic
    refine ⟨fun u => if u = k then 0 else rank u + 1, fun u t ht x hx => ?_⟩
    rw [hval] at ht
    have hu : T.root u ≠ k ∧ T.root u ≠ l := by
      refine ⟨fun he => ?_, fun he => ?_⟩
      · rw [← h.value?_root u, he, hkv] at ht
        cases ht
      · rw [← h.value?_root u, he, hll] at ht
        cases ht
    have := hr u t ht x hx
    simp only [hroot, hu.1, hu.2, if_false]
    split
    · simp
    · split <;> omega
  · rw [hroot, hroot u, h.root_root]
  · rcases hlk with ⟨rfl, rfl⟩ | ⟨rfl, rfl⟩
    · simp [hroot]
    · simp [hroot, hne]

/-! ## A binding -/

theorem Wf.assign {v : TyVar} {t : Ty} (hv : v < T.size) (hvv : T.value? v = none)
    (ht : ∀ w ∈ t.occurrences, w < T.size) (hne : ∀ w, t ≠ .var w)
    (hocc : T.root v ∉ (T.resolve t).occurrences) :
    (T.assign v t).Wf ∧ T.Extends (T.assign v t) := by
  have hroot := h.root_assign t hv
  have hval := h.value?_assign t hv
  refine ⟨⟨h.toLinked.assign t hv, fun u s hs w hw => ?_, fun u s hs => ?_, ?_⟩,
    ⟨by simp, fun u => by rw [hroot, hroot, h.root_root], fun u s hs => ?_⟩⟩
  · rw [size_assign]
    rw [hval] at hs
    split at hs
    · cases hs
      exact ht w hw
    · exact h.value_lt u s hs w hw
  · rw [hval] at hs
    split at hs
    · cases hs
      exact hne
    · exact h.value_ne_var u s hs
  · -- rank all that reaches the class of `v` above all that does not
    obtain ⟨rank, hr, hlt⟩ := h.exists_rank
    refine ⟨fun r => rank r +
      if T.root v ∈ (T.resolve (.var r)).occurrences then T.size else 0, fun u s hs w hw => ?_⟩
    rw [hval] at hs
    simp only [hroot, h.resolve_root]
    split at hs
    · rename_i hu
      cases hs
      have h1 : T.root v ∉ (T.resolve (.var w)).occurrences := fun hm =>
        hocc (mem_resolve.2 ⟨w, hw, hm⟩)
      have h2 : T.root v ∈ (T.resolve (.var u)).occurrences := by
        rw [h.resolve_unbound (value?_congr hu ▸ hvv), hu]
        simp [Ty.occurrences]
      have := hlt w (ht w hw)
      simp only [h1, h2, if_true, if_false]
      omega
    · have h1 := hr u s hs w hw
      have h2 : T.root v ∈ (T.resolve (.var w)).occurrences →
          T.root v ∈ (T.resolve (.var u)).occurrences := fun hm => by
        rw [h.resolve_bound hs]
        exact mem_resolve.2 ⟨w, hw, hm⟩
      split
      · rename_i hm
        rw [if_pos (h2 hm)]
        omega
      · omega
  · rw [hval]
    split
    · rename_i hu
      rw [value?_congr hu, hvv] at hs
      cases hs
    · exact hs

end

end TypeInference.VarTable
