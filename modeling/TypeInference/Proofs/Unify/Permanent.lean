import TypeInference.Proofs.Unify.Reachable

/-!
# Unification is sound and permanent

Types that were unified resolve to the same type (`Run.same`), up to names of declared structs.
Since a later table only replaces variables of what an earlier one resolves, they go on doing so
(`Extends.same`). Types that resolve to the same type decompose without a clash and without a
binding (`exists_parts_of_same`), so unifying them once more changes nothing (`Run.of_same`).

`unify_sound_permanent` puts the three together for reachable tables.
-/

namespace TypeInference.VarTable

open Ty

variable {T T' : VarTable} {a b : Ty}

theorem same_resolve_iff : Same (T.resolve a) (T.resolve b) ↔
    Same (a.bind fun v => T.resolve (.var v)) (b.bind fun v => T.resolve (.var v)) := by
  rw [resolve_eq_bind, resolve_eq_bind b]

/-- What resolves to the same type goes on doing so. -/
theorem Extends.same (he : T.Extends T') (h : T.Wf) (h' : T'.Wf)
    (hs : Same (T.resolve a) (T.resolve b)) : Same (T'.resolve a) (T'.resolve b) := by
  rw [← he.resolve_resolve h h' a, ← he.resolve_resolve h h' b, same_resolve_iff]
  exact hs.bind _

/-- Two types that resolve to the same type are one variable, or decompose into parts that resolve
to the same types. -/
theorem exists_parts_of_same (h : T.Wf) (hs : Same (T.resolve a) (T.resolve b)) :
    ∃ qs, (T.leader a).confront (T.leader b) = .parts qs ∧
      ∀ q ∈ qs, Same (T.resolve q.1) (T.resolve q.2) := by
  rw [← h.resolve_leader a, ← h.resolve_leader b] at hs
  have hvar : ∀ {s : Ty} {v}, T.leader s = .var v → T.resolve (T.leader s) = .var v := by
    intro s v hl
    obtain ⟨hr, hv⟩ := h.of_leader_eq_var hl
    rw [hl, h.resolve_unbound hv, hr]
  have hne : ∀ {s : Ty}, (∀ v, s ≠ .var v) → ∀ v, T.resolve s ≠ .var v := fun {s} hn => by
    rw [resolve_eq_bind]
    exact bind_ne_var hn _
  by_cases ha : ∃ v, T.leader a = .var v
  · obtain ⟨v, ha⟩ := ha
    by_cases hb : ∃ w, T.leader b = .var w
    · obtain ⟨w, hb⟩ := hb
      rw [hvar ha, hvar hb] at hs
      cases hs
      exact ⟨[], by rw [ha, hb]; exact confront_eq_parts.2 (.var v), nofun⟩
    · rw [hvar ha] at hs
      exact absurd hs.eq_var_left (hne (fun w hw => hb ⟨w, hw⟩) v)
  · by_cases hb : ∃ w, T.leader b = .var w
    · obtain ⟨w, hb⟩ := hb
      rw [hvar hb] at hs
      exact absurd hs.symm.eq_var_left (hne (fun v hv => ha ⟨v, hv⟩) w)
    · obtain ⟨qs, hd, hq⟩ := exists_decomposes_of_same (fun v hv => ha ⟨v, hv⟩)
        (fun w hw => hb ⟨w, hw⟩) (same_resolve_iff.1 hs)
      exact ⟨qs, confront_eq_parts.2 hd, fun q hm => same_resolve_iff.2 (hq q hm)⟩

end TypeInference.VarTable

namespace TypeInference.Unify

open VarTable Ty

variable {o : Origin} {T T' : VarTable} {ps : List (Ty × Ty)} {e : Option TypeError}

/-- What a run without an error made equal resolves to the same type. -/
theorem Run.same (hr : Run o T ps e T') (h : T.Wf) (he : e = none) :
    ∀ p ∈ ps, Same (T'.resolve p.1) (T'.resolve p.2) := by
  induction hr with
  | done T => exact nofun
  | @parts T T' a b qs ps e hc hr ih =>
    obtain ⟨hq, hps⟩ := List.forall_mem_append.1 (ih h he)
    obtain ⟨h', hx, -⟩ := hr.wf h
    refine List.forall_mem_cons.2 ⟨?_, hps⟩
    rw [← hx.resolve_leader h h' a, ← hx.resolve_leader h h' b, same_resolve_iff]
    exact (confront_eq_parts.1 hc).same fun q hm => same_resolve_iff.1 (hq q hm)
  | @merge T T' a b v w ps e hc hv hw hr ih =>
    obtain ⟨h1, hx1, hroot⟩ := unite_of_merge h hc hv hw
    obtain ⟨h', hx, -⟩ := hr.wf h1
    refine List.forall_mem_cons.2 ⟨?_, ih h1 he⟩
    obtain ⟨ha, hb, -⟩ := confront_eq_merge.1 hc
    rw [← (hx1.trans hx).resolve_leader h h' a, ← (hx1.trans hx).resolve_leader h h' b, ha, hb,
      h'.resolve_congr (hx.root_congr hroot)]
    exact .refl _
  | @assign T T' a b t v ps e hc hv ht ho hr ih =>
    obtain ⟨h1, hx1⟩ := assign_of_assign h hc hv ht ho
    obtain ⟨h', hx, -⟩ := hr.wf h1
    refine List.forall_mem_cons.2 ⟨?_, ih h1 he⟩
    have hval : T'.value? v = some t := hx.value v t (by rw [h.value?_assign t hv, if_pos rfl])
    rw [← (hx1.trans hx).resolve_leader h h' a, ← (hx1.trans hx).resolve_leader h h' b]
    obtain ⟨⟨ha, hb⟩ | ⟨ha, hb⟩, -⟩ := confront_eq_assign.1 hc
    · rw [ha, hb, h'.resolve_bound hval]
      exact .refl _
    · rw [ha, hb, h'.resolve_bound hval]
      exact .refl _
  | occurs => cases he
  | clash => cases he

/-- A run over types that resolve to the same type ends well and leaves the table as it is. -/
theorem Run.of_same (hr : Run o T ps e T') (h : T.Wf)
    (hs : ∀ p ∈ ps, Same (T.resolve p.1) (T.resolve p.2)) : e = none ∧ T' = T := by
  induction hr with
  | done T => exact ⟨rfl, rfl⟩
  | @parts T T' a b qs ps e hc hr ih =>
    obtain ⟨hab, hps⟩ := List.forall_mem_cons.1 hs
    obtain ⟨qs', hc', hq⟩ := exists_parts_of_same h hab
    rw [hc] at hc'
    cases hc'
    exact ih h (List.forall_mem_append.2 ⟨hq, hps⟩)
  | merge hc | assign hc | occurs _ hc =>
    obtain ⟨qs, hc', -⟩ := exists_parts_of_same h (List.forall_mem_cons.1 hs).1
    rw [hc] at hc'
    cases hc'
  | clash ps hc =>
    obtain ⟨qs, hc', -⟩ := exists_parts_of_same h (List.forall_mem_cons.1 hs).1
    rw [hc'] at hc
    cases hc

end TypeInference.Unify

namespace TypeInference.VarTable

open Unify Ty

/-- Whatever comes of a unification, the table grows; a success makes the two types the same. -/
theorem Wf.unify_grows {T : VarTable} (h : T.Wf) (a b : Ty) (o : Origin) :
    (unify a b o).Ends T
      (fun _ T' => (T'.Wf ∧ T.Extends T') ∧ Same (T'.resolve a) (T'.resolve b))
      (fun _ T' => T'.Wf ∧ T.Extends T') fun _ => True := by
  refine (h.unify_ends a b o).mono (fun _ T' hr => ?_) (fun e T' hr => ?_) fun _ _ => trivial
  · obtain ⟨h', he, -⟩ := hr.wf h
    exact ⟨⟨h', he⟩, hr.same h rfl (a, b) (by simp)⟩
  · obtain ⟨h', he, -⟩ := hr.wf h
    exact ⟨h', he⟩

/-- Unifying types that resolve to the same type succeeds and leaves the table as it is. -/
theorem Wf.unify_of_same {T : VarTable} {a b : Ty} (h : T.Wf) (ha : T.Minted a) (hb : T.Minted b)
    (hs : Same (T.resolve a) (T.resolve b)) (o : Origin) :
    (unify a b o).outcome T = (.ok (), T) := by
  have hs' : ∀ p ∈ [(a, b)], Same (T.resolve p.1) (T.resolve p.2) := List.forall_mem_singleton.2 hs
  obtain ⟨T', hu, hr⟩ | ⟨e, T', hu, hr⟩ := h.unify_run ha hb o
  · rw [hu, (hr.of_same h hs').2]
  · cases (hr.of_same h hs').1

/-- A successful unification makes the two types the same, they stay the same whatever is done
later, and unifying them again at any later point succeeds and changes nothing. -/
theorem unify_sound_permanent {T T' : VarTable} {a b : Ty} {o : Origin} (hT : Reachable T)
    (ha : T.Minted a) (hb : T.Minted b) (hu : (unify a b o).outcome T = (.ok (), T')) :
    Same (T'.resolve a) (T'.resolve b) ∧ ∀ T'', Later T' T'' →
      Same (T''.resolve a) (T''.resolve b) ∧ ∀ o', (unify a b o').outcome T'' = (.ok (), T'') := by
  have h := hT.wf
  have hr : Run o T [(a, b)] none T' := (h.unify_ends a b o).of_ok hu
  obtain ⟨h', he, -⟩ := hr.wf h
  have hs := hr.same h rfl (a, b) (by simp)
  refine ⟨hs, fun T'' hl => ?_⟩
  obtain ⟨h'', he'⟩ := h'.later hl
  have hs'' := he'.same h' h'' hs
  have hle := (he.trans he').size_le
  exact ⟨hs'', h''.unify_of_same (ha.mono hle) (hb.mono hle) hs''⟩

/-- A named layout against its name, a parameter learned from a later one, and a unification in
between that fails. -/
theorem unify_sound_permanent_after_failure :
    let a : Ty := .fn [.var 0, .var 1] (.con "P")
    let b : Ty := .fn [.ptr (.var 1), .int] (.struct (some "P") [("x", .var 1)])
    let T : VarTable := ⟨#[.root 0 (some (.ptr (.var 1))), .root 0 (some .int)]⟩
    let T' := ((unify (.ptr .bool) (.var 0) .builtin).outcome T).2
    (unify a b .builtin).outcome (∅ : VarTable).mint.2.mint.2 = (.ok (), T) ∧
      Same (T'.resolve a) (T'.resolve b) ∧ (unify a b .builtin).outcome T' = (.ok (), T') := by
  intro a b T T'
  have hT : Reachable (∅ : VarTable).mint.2.mint.2 := .tail (.tail .refl (.mint _)) (.mint _)
  have hu : (unify a b .builtin).outcome (∅ : VarTable).mint.2.mint.2 = (.ok (), T) := rfl
  have hl : Later T T' := .single (.unify (.ptr .bool) (.var 0) .builtin ⟨rfl, nofun⟩)
  obtain ⟨hs, ha⟩ := (unify_sound_permanent hT (by decide) (by decide) hu).2 T' hl
  exact ⟨hu, hs, ha .builtin⟩

end TypeInference.VarTable
