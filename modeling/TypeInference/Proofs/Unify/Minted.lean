import TypeInference.Proofs.Unify.MostGeneral

/-!
# Unification reads what it makes equal

Unification faults when it comes to a variable that was never minted. Of nameless types it leaves no
part out: the outermost forms are compared, and below them every pair of parts, down to variables
that are merged or that a type without other variables than minted ones is bound to. So where it
succeeds, all variables in the two types are minted (`Wf.unify_nameless_ends`).
-/

namespace TypeInference.Unify

open VarTable Ty

variable {o : Origin} {T T' : VarTable} {a b : Ty}

/-- What the steps of a run leave: a table fit for the next one. -/
structure Fit (T T' : VarTable) : Prop where
  wf : T'.Wf
  nameless : T'.NamelessValues
  size : T'.size = T.size

theorem Fit.trans {T'' : VarTable} (h : Fit T T') (h' : Fit T' T'') : Fit T T'' :=
  ⟨h'.wf, h'.nameless, h'.size.trans h.size⟩

theorem Fit.minted {t : Ty} (h : Fit T T') (ht : T'.Minted t) : T.Minted t := fun v hv =>
  Nat.lt_of_lt_of_eq (ht v hv) h.size

theorem Run.fit {ps : List (Ty × Ty)} {e : Option TypeError} (hr : Run o T ps e T') (h : T.Wf)
    (hT : T.NamelessValues) (hps : ∀ p ∈ ps, p.1.Nameless ∧ p.2.Nameless) : Fit T T' := by
  obtain ⟨h', -, hs⟩ := hr.wf h
  exact ⟨h', hr.values (fun _ _ hp ht => ht.of_mem_parts hp) .var h hT hps, hs⟩

/-- A type is minted when the parts of its leader are and, if it is a variable, it is itself. -/
theorem minted_of_parts (ha : ∀ v, a = .var v → v < T.size)
    (hp : ∀ s ∈ (T.leader a).parts, T.Minted s) : T.Minted a := by
  by_cases hv : ∃ v, a = .var v
  · obtain ⟨v, rfl⟩ := hv
    exact fun w hw => List.mem_singleton.1 hw ▸ ha v rfl
  · have hne : ∀ v, a ≠ .var v := fun v he => hv ⟨v, he⟩
    have hl : T.leader a = a := by cases a <;> first | rfl | exact absurd rfl (hne _)
    intro w hw
    obtain ⟨s, hs, hw⟩ := exists_mem_parts hne hw
    exact hp s (by rwa [hl]) w hw

theorem minted_of_leader (ha : ∀ v, a = .var v → v < T.size) (hl : T.Minted (T.leader a)) :
    T.Minted a := by
  refine minted_of_parts ha fun s hs v hv => ?_
  exact hl v (occurrences_of_mem_parts hs hv)

/-- A loop over pairs that succeeds has read all of them. -/
theorem forM_minted {depth : Nat} (hrec : ∀ (T : VarTable) (a b : Ty), T.Wf → T.NamelessValues →
      a.Nameless → b.Nameless → (atDepth o depth a b).Ends T
        (fun _ T' => Fit T T' ∧ T.Minted a ∧ T.Minted b) (fun _ _ => True) fun _ => True) :
    ∀ (qs : List (Ty × Ty)) (T : VarTable), T.Wf → T.NamelessValues →
      (∀ q ∈ qs, q.1.Nameless ∧ q.2.Nameless) →
      (qs.forM fun (s, t) => atDepth o depth s t).Ends T
        (fun _ T' => Fit T T' ∧ ∀ q ∈ qs, T.Minted q.1 ∧ T.Minted q.2) (fun _ _ => True)
        fun _ => True
  | [], T, h, hT, _ => ⟨⟨h, hT, rfl⟩, nofun⟩
  | (s, t) :: qs, T, h, hT, hq => by
    obtain ⟨hst, hqs⟩ := List.forall_mem_cons.1 hq
    refine Action.Ends.bind (x := atDepth o depth s t) (hrec T s t h hT hst.1 hst.2)
      fun _ T' ⟨hf, hm⟩ => ?_
    refine (forM_minted hrec qs T' hf.wf hf.nameless hqs).mono (fun _ T'' ⟨hf', hm'⟩ => ?_)
      (fun _ _ => id) fun _ => id
    exact ⟨hf.trans hf', List.forall_mem_cons.2 ⟨hm, fun q hq =>
      ⟨hf.minted (hm' q hq).1, hf.minted (hm' q hq).2⟩⟩⟩

theorem atDepth_minted : ∀ (depth : Nat) (T : VarTable) (a b : Ty), T.Wf → T.NamelessValues →
    a.Nameless → b.Nameless → (atDepth o depth a b).Ends T
      (fun _ T' => Fit T T' ∧ T.Minted a ∧ T.Minted b) (fun _ _ => True) fun _ => True
  | 0, T, a, b, h, hT, hna, hnb => trivial
  | depth + 1, T, a, b, h, hT, hna, hnb => by
    have hab : ∀ p ∈ [(a, b)], p.1.Nameless ∧ p.2.Nameless :=
      List.forall_mem_singleton.2 ⟨hna, hnb⟩
    suffices hm : (atDepth o (depth + 1) a b).Ends T (fun _ _ => T.Minted a ∧ T.Minted b)
        (fun _ _ => True) fun _ => True by
      refine ((atDepth_ends (n := 0) (depth + 1) T a b h).and hm).mono (fun _ T' hr => ?_)
        (fun _ _ _ => trivial) fun _ _ => trivial
      exact ⟨(hr.1 [] none T' (.done T')).fit h hT hab, hr.2⟩
    have hla : (T.leader a).Nameless := h.leader_of .var hT hna
    have hlb : (T.leader b).Nameless := h.leader_of .var hT hnb
    unfold atDepth
    refine Action.ends_get_bind ?_
    obtain ⟨ha, hma⟩ | ⟨⟨f, ha⟩, -⟩ := T.checkedLeader_cases a
    · obtain ⟨hb, hmb⟩ | ⟨⟨f, hb⟩, -⟩ := T.checkedLeader_cases b
      · simp only [ha, hb, Action.require, pure_bind]
        split
        · rename_i qs hc
          have hd := confront_eq_parts.1 hc
          have hqs : ∀ q ∈ qs, q.1.Nameless ∧ q.2.Nameless := fun q hq => by
            obtain ⟨h1, h2⟩ := hd.mem_parts hq
            exact ⟨hla.of_mem_parts h1, hlb.of_mem_parts h2⟩
          refine (forM_minted (atDepth_minted depth) qs T h hT hqs).mono (fun _ T' hm => ?_)
            (fun _ _ => id) fun _ => id
          obtain ⟨h1, h2⟩ := hd.forall_parts hla hlb hm.2
          exact ⟨minted_of_parts hma h1, minted_of_parts hmb h2⟩
        · rename_i v w hc
          obtain ⟨hv, hw, -⟩ := confront_eq_merge.1 hc
          exact Action.ends_set ⟨minted_of_parts hma (by simp [hv, parts]),
            minted_of_parts hmb (by simp [hw, parts])⟩
        · rename_i v t hc
          obtain ⟨⟨hv, ht⟩ | ⟨ht, hv⟩, -⟩ := confront_eq_assign.1 hc
          · have hlt := lt_of_leader_eq_var h hma hv
            refine assign_ends hlt (fun _ hm => ⟨?_, ?_⟩) (fun _ => trivial) fun _ _ => trivial
            · exact minted_of_parts hma (by simp [hv, parts])
            · exact minted_of_leader hmb (ht ▸ hm)
          · have hlt := lt_of_leader_eq_var h hmb hv
            refine assign_ends hlt (fun _ hm => ⟨?_, ?_⟩) (fun _ => trivial) fun _ _ => trivial
            · exact minted_of_leader hma (ht ▸ hm)
            · exact minted_of_parts hmb (by simp [hv, parts])
        · exact mismatch_ends trivial fun _ _ => trivial
        · exact Action.ends_fail trivial
        · exact Action.ends_fail trivial
      · rw [ha, hb]
        trivial
    · rw [ha]
      trivial

end TypeInference.Unify

namespace TypeInference.VarTable

open Unify

/-- How unification of nameless types ends: with the solutions that make the types equal, which are
minted then; with an error or a fault if there are none or if the types are not minted. -/
theorem Wf.unify_nameless_ends {T : VarTable} (h : T.Wf) (hT : T.NamelessValues) {a b : Ty}
    (ha : a.Nameless) (hb : b.Nameless) (o : Origin) : (unify a b o).Ends T
      (fun _ T' => Fit T T' ∧ (T.Minted a ∧ T.Minted b) ∧
        ∀ θ, T'.Solves θ ↔ T.Solves θ ∧ a.bind θ = b.bind θ)
      (fun _ _ => ∀ θ, T.Solves θ → a.bind θ ≠ b.bind θ) fun _ => ¬ (T.Minted a ∧ T.Minted b) := by
  have hab : ∀ p ∈ [(a, b)], p.1.Nameless ∧ p.2.Nameless := List.forall_mem_singleton.2 ⟨ha, hb⟩
  have hm : (unify a b o).Ends T (fun _ T' => Fit T T' ∧ T.Minted a ∧ T.Minted b)
      (fun _ _ => True) fun _ => True :=
    Action.ends_get_bind (atDepth_minted (T.depthBound [a, b]) T a b h hT ha hb)
  refine ((h.unify_ends a b o).and hm).mono (fun _ T' ⟨hr, hf, hm⟩ => ⟨hf, hm, fun θ => ?_⟩)
    (fun e T' ⟨hr, _⟩ θ hs he => ?_) fun _ => And.left
  · simpa using hr.solves h hT hab θ
  · simpa using (hr.solves h hT hab θ).2 ⟨hs, by simpa⟩

end TypeInference.VarTable
