import TypeInference.Proofs.Action
import TypeInference.Proofs.Unify.Confront
import TypeInference.Proofs.VarTable.Checks
import TypeInference.Proofs.VarTable.Growth

/-!
# Runs of unification

`Run o T pairs e T'`: making the types of each pair equal, from left to right and starting in `T`,
leaves `T'` and stops with the type error `e`, if there is one. The relation goes through a list of
pairs that are still to be made equal, so each of its rules does one thing to the table; what a rule
keeps, a run keeps.

* `Run.wf`: a run keeps a table well-formed, extends it and mints nothing.
* `atDepth_ends`: what `atDepth` answers is a run, whatever depth it was given; only variables that
  were never minted or too little depth make it fault.
* `Wf.unify_run`: on minted types `unify` answers, and what it answers is a run.
-/

namespace TypeInference.Unify

open VarTable

/-- The type error for two leaders that clash. -/
def clashError? (T : VarTable) (o : Origin) (a b : Ty) : Confrontation → Option TypeError
  | .differentShape => some (.mismatch (T.resolve a) (T.resolve b) o)
  | .differentNames => some (.mismatch a b o)
  | .differentArity m n => some (.arityMismatch m n o)
  | _ => none

/-- Making the types of each pair equal, from left to right (module doc). -/
inductive Run (o : Origin) : VarTable → List (Ty × Ty) → Option TypeError → VarTable → Prop
  | done (T : VarTable) : Run o T [] none T
  | parts {T T' : VarTable} {a b : Ty} {qs ps : List (Ty × Ty)} {e : Option TypeError} :
      (T.leader a).confront (T.leader b) = .parts qs → Run o T (qs ++ ps) e T' →
      Run o T ((a, b) :: ps) e T'
  | merge {T T' : VarTable} {a b : Ty} {v w : TyVar} {ps : List (Ty × Ty)} {e : Option TypeError} :
      (T.leader a).confront (T.leader b) = .merge v w → v < T.size → w < T.size →
      Run o (T.unite v w) ps e T' → Run o T ((a, b) :: ps) e T'
  | assign {T T' : VarTable} {a b t : Ty} {v : TyVar} {ps : List (Ty × Ty)}
      {e : Option TypeError} :
      (T.leader a).confront (T.leader b) = .assign v t → v < T.size → T.Minted t →
      T.occurs v t = false → Run o (T.assign v t) ps e T' → Run o T ((a, b) :: ps) e T'
  | occurs {T : VarTable} {a b t : Ty} {v : TyVar} (ps : List (Ty × Ty)) :
      (T.leader a).confront (T.leader b) = .assign v t → T.occurs v t = true →
      Run o T ((a, b) :: ps) (some (.occursCheck v (T.resolve t) o)) T
  | clash {T : VarTable} {a b : Ty} {e : TypeError} (ps : List (Ty × Ty)) :
      clashError? T o (T.leader a) (T.leader b) ((T.leader a).confront (T.leader b)) = some e →
      Run o T ((a, b) :: ps) (some e) T

theorem clash_of_clashError {T : VarTable} {o : Origin} {a b : Ty} {c : Confrontation}
    {e : TypeError} (h : clashError? T o a b c = some e) : c.Clash := by
  cases c with
  | differentShape => exact .shape
  | differentNames => exact .names
  | differentArity m n => exact .arity m n
  | _ => cases h

/-! ## What a run does to the table -/

section
variable {o : Origin} {T T' : VarTable} {a b t : Ty} {v w : TyVar}

/-- Two leaders that are merged are the roots of two unbound classes. -/
theorem unite_of_merge (h : T.Wf) (hc : (T.leader a).confront (T.leader b) = .merge v w)
    (hv : v < T.size) (hw : w < T.size) : (T.unite v w).Wf ∧ T.Extends (T.unite v w) ∧
      (T.unite v w).root v = (T.unite v w).root w := by
  obtain ⟨ha, hb, hne⟩ := Ty.confront_eq_merge.1 hc
  obtain ⟨hrv, hvv⟩ := h.of_leader_eq_var ha
  obtain ⟨hrw, hvw⟩ := h.of_leader_eq_var hb
  exact h.unite hv hw (by rwa [hrv, hrw]) hvv hvw

theorem unbound_of_assign (h : T.Wf) (hc : (T.leader a).confront (T.leader b) = .assign v t) :
    (T.root v = v ∧ T.value? v = none) ∧ ∀ w, t ≠ .var w := by
  obtain ⟨ha | hb, hne⟩ := Ty.confront_eq_assign.1 hc
  · exact ⟨h.of_leader_eq_var ha.1, hne⟩
  · exact ⟨h.of_leader_eq_var hb.2, hne⟩

theorem assign_of_assign (h : T.Wf) (hc : (T.leader a).confront (T.leader b) = .assign v t)
    (hv : v < T.size) (ht : T.Minted t) (ho : T.occurs v t = false) :
    (T.assign v t).Wf ∧ T.Extends (T.assign v t) := by
  obtain ⟨⟨-, hvv⟩, hne⟩ := unbound_of_assign h hc
  refine h.assign hv hvv ht hne fun hm => ?_
  rw [← h.occurs_iff hvv, ho] at hm
  cases hm

theorem Run.wf {ps : List (Ty × Ty)} {e : Option TypeError} (hr : Run o T ps e T') (h : T.Wf) :
    T'.Wf ∧ T.Extends T' ∧ T'.size = T.size := by
  induction hr with
  | done T => exact ⟨h, .refl h.toLinked, rfl⟩
  | parts hc _ ih => exact ih h
  | merge hc hv hw _ ih =>
    obtain ⟨h1, he1, -⟩ := unite_of_merge h hc hv hw
    obtain ⟨h2, he2, hs⟩ := ih h1
    exact ⟨h2, he1.trans he2, by rw [hs, size_unite]⟩
  | assign hc hv ht ho _ ih =>
    obtain ⟨h1, he1⟩ := assign_of_assign h hc hv ht ho
    obtain ⟨h2, he2, hs⟩ := ih h1
    exact ⟨h2, he1.trans he2, by rw [hs, size_assign]⟩
  | occurs ps hc ho => exact ⟨h, .refl h.toLinked, rfl⟩
  | clash ps hc => exact ⟨h, .refl h.toLinked, rfl⟩

/-- A property of types that parts inherit and variables have: a run keeps it of all values. -/
theorem Run.values {P : Ty → Prop} (hpart : ∀ s t : Ty, s ∈ t.parts → P t → P s)
    (hvar : ∀ v, P (.var v)) {ps : List (Ty × Ty)} {e : Option TypeError} (hr : Run o T ps e T')
    (h : T.Wf) (hT : ∀ v t, T.value? v = some t → P t) (hps : ∀ p ∈ ps, P p.1 ∧ P p.2) :
    ∀ v t, T'.value? v = some t → P t := by
  induction hr with
  | done T => exact hT
  | parts hc _ ih =>
    obtain ⟨hp, hps⟩ := List.forall_mem_cons.1 hps
    refine ih h hT (List.forall_mem_append.2 ⟨fun q hq => ?_, hps⟩)
    obtain ⟨h1, h2⟩ := (Ty.confront_eq_parts.1 hc).mem_parts hq
    exact ⟨hpart _ _ h1 (h.leader_of hvar hT hp.1), hpart _ _ h2 (h.leader_of hvar hT hp.2)⟩
  | @merge T T' a b v w ps e hc hv hw _ ih =>
    obtain ⟨h1, -, -⟩ := unite_of_merge h hc hv hw
    obtain ⟨ha, hb, hne⟩ := Ty.confront_eq_merge.1 hc
    obtain ⟨hrv, hvv⟩ := h.of_leader_eq_var ha
    obtain ⟨hrw, hvw⟩ := h.of_leader_eq_var hb
    obtain ⟨-, hval, -⟩ := h.unite_spec hv hw (by rwa [hrv, hrw]) hvv hvw
    exact ih h1 (fun u t ht => hT u t (hval u ▸ ht)) fun p hp => hps p (List.mem_cons_of_mem _ hp)
  | @assign T T' a b t v ps e hc hv ht ho _ ih =>
    obtain ⟨h1, -⟩ := assign_of_assign h hc hv ht ho
    obtain ⟨hp, hps⟩ := List.forall_mem_cons.1 hps
    refine ih h1 (fun u s hs => ?_) hps
    rw [h.value?_assign t hv] at hs
    split at hs
    · cases hs
      obtain ⟨⟨-, rfl⟩ | ⟨rfl, -⟩, -⟩ := Ty.confront_eq_assign.1 hc
      · exact h.leader_of hvar hT hp.2
      · exact h.leader_of hvar hT hp.1
    · exact hT u s hs
  | occurs ps hc ho => exact hT
  | clash ps hc => exact hT

theorem Run.low {n : Nat} {ps : List (Ty × Ty)} {e : Option TypeError} (hr : Run o T ps e T')
    (h : T.Wf) (hT : T.Low n) (hps : ∀ p ∈ ps, p.1.height ≤ n ∧ p.2.height ≤ n) : T'.Low n :=
  hr.values (fun _ _ hs ht => Nat.le_trans (Nat.le_of_lt (Ty.height_lt_of_mem_parts hs)) ht)
    (fun _ => Nat.zero_le _) h hT hps

end

/-! ## What is answered is a run -/

/-- The types and the table are within the variables minted and within a depth that no later binding
exceeds. -/
structure Ready (n depth : Nat) (T : VarTable) (a b : Ty) : Prop where
  left_minted : T.Minted a
  right_minted : T.Minted b
  low : T.Low n
  left_low : a.height ≤ n
  right_low : b.height ≤ n
  deep : ∀ T' : VarTable, T'.Wf → T.Extends T' → T'.size = T.size → T'.Low n →
    (T'.resolve a).height < depth

section
variable {o : Origin} {n depth : Nat} {T T' : VarTable} {a b : Ty}

theorem Ready.later (h : Ready n depth T a b) (he : T.Extends T') (hs : T'.size = T.size)
    (hl : T'.Low n) : Ready n depth T' a b where
  left_minted := h.left_minted.mono he.size_le
  right_minted := h.right_minted.mono he.size_le
  low := hl
  left_low := h.left_low
  right_low := h.right_low
  deep T'' hw he' hs' hl' := h.deep T'' hw (he.trans he') (hs'.trans hs) hl'

theorem Ready.part {p : Ty × Ty} (h : Ready n (depth + 1) T a b) (hT : T.Wf)
    (h1 : p.1 ∈ (T.leader a).parts) (h2 : p.2 ∈ (T.leader b).parts) : Ready n depth T p.1 p.2 where
  left_minted _ hv := hT.minted_leader h.left_minted _ (Ty.occurrences_of_mem_parts h1 hv)
  right_minted _ hv := hT.minted_leader h.right_minted _ (Ty.occurrences_of_mem_parts h2 hv)
  low := h.low
  left_low := Nat.le_trans (Nat.le_of_lt (Ty.height_lt_of_mem_parts h1))
    (hT.height_leader_le h.low h.left_low)
  right_low := Nat.le_trans (Nat.le_of_lt (Ty.height_lt_of_mem_parts h2))
    (hT.height_leader_le h.low h.right_low)
  deep T' hw he hs hl := by
    have hlt := h.deep T' hw he hs hl
    rw [← he.resolve_leader hT hw, resolve_eq_bind] at hlt
    have := Ty.height_lt_of_mem_parts (Ty.bind_mem_parts h1 fun v => T'.resolve (.var v))
    rw [resolve_eq_bind]
    omega

/-- How the loop over `qs` ends: later pairs run on from the table left, an error is that of the
whole run, and a fault means that some pair was not ready. -/
abbrev EndsAsRun (o : Origin) (x : Action VarTable Unit) (T : VarTable) (qs : List (Ty × Ty))
    (F : Prop) : Prop :=
  x.Ends T (fun _ T' => ∀ ps e T'', Run o T' ps e T'' → Run o T (qs ++ ps) e T'')
    (fun e T' => ∀ ps, Run o T (qs ++ ps) (some e) T') fun _ => F

theorem forM_ends (hrec : ∀ (T : VarTable) (a b : Ty), T.Wf →
      EndsAsRun o (atDepth o depth a b) T [(a, b)] (¬ Ready n depth T a b)) :
    ∀ (qs : List (Ty × Ty)) (T : VarTable), T.Wf →
      EndsAsRun o (qs.forM fun (s, t) => atDepth o depth s t) T qs
        (¬ ∀ q ∈ qs, Ready n depth T q.1 q.2)
  | [], T, h => fun ps e T'' hr => hr
  | (s, t) :: qs, T, h => by
    refine Action.Ends.bind (x := atDepth o depth s t) ((hrec T s t h).mono
      (fun _ _ => id) (fun _ _ hr ps => ?_) (fun _ hf hq => ?_)) fun _ T' hr => ?_
    · exact hr (qs ++ ps)
    · exact hf (List.forall_mem_cons.1 hq).1
    · have hr0 : Run o T [(s, t)] none T' := hr [] none T' (.done T')
      obtain ⟨h', he, hs⟩ := hr0.wf h
      refine (forM_ends hrec qs T' h').mono (fun _ T'' hr' ps e U hU => ?_)
        (fun e T'' hr' ps => ?_) (fun _ hf hq => ?_)
      · exact hr _ e U (hr' ps e U hU)
      · exact hr _ (some e) T'' (hr' ps)
      · obtain ⟨hst, hqs⟩ := List.forall_mem_cons.1 hq
        have hl : T'.Low n := hr0.low h hst.low (by simp [hst.left_low, hst.right_low])
        exact hf fun q hm => (hqs q hm).later he hs hl

theorem mismatch_ends {E : TypeError → VarTable → Prop} {F : Fault → Prop}
    {Q : Unit → VarTable → Prop}
    (hE : E (.mismatch (T.resolve a) (T.resolve b) o) T)
    (hF : ¬ (T.Minted a ∧ T.Minted b) → ∀ f, F f) : (mismatch o a b).Ends T Q E F := by
  unfold mismatch
  refine Action.ends_get_bind ?_
  obtain ⟨ha, hma⟩ | ⟨⟨f, ha⟩, hma⟩ := T.checkedResolve_cases a
  · obtain ⟨hb, hmb⟩ | ⟨⟨f, hb⟩, hmb⟩ := T.checkedResolve_cases b
    · rw [ha, hb]
      exact hE
    · rw [ha, hb]
      exact hF (fun hm => hmb hm.2) f
  · rw [ha]
    exact hF (fun hm => hma hm.1) f

theorem assign_ends {v : TyVar} {t : Ty} {E : TypeError → VarTable → Prop} {F : Fault → Prop}
    {Q : Unit → VarTable → Prop} (hv : v < T.size)
    (hQ : T.occurs v t = false → T.Minted t → Q () (T.assign v t))
    (hE : T.occurs v t = true → E (.occursCheck v (T.resolve t) o) T)
    (hF : ¬ T.Minted t → ∀ f, F f) : (assign o v t).Ends T Q E F := by
  unfold assign
  refine Action.ends_get_bind ?_
  obtain ⟨b, hb, hbo, hm⟩ | ⟨⟨f, hb⟩, hm⟩ := T.checkedOccurs_cases hv t
  · rw [hb]
    cases b with
    | true =>
      obtain ⟨ht, -⟩ | ⟨⟨f, ht⟩, hmt⟩ := T.checkedResolve_cases t
      · rw [ht]
        exact hE hbo.symm
      · rw [ht]
        exact hF hmt f
    | false => exact hQ hbo.symm (hm rfl)
  · rw [hb]
    exact hF hm f

theorem lt_of_leader_eq_var (h : T.Wf) (ha : ∀ v, a = .var v → v < T.size) {v : TyVar}
    (hl : T.leader a = .var v) : v < T.size := by
  cases a with
  | var u =>
    have hu : T.Minted (.var u) := fun w hw => List.mem_singleton.1 hw ▸ ha u rfl
    exact h.minted_leader hu v (by simp [hl, Ty.occurrences])
  | _ => cases hl

/-- Whatever depth it is given, what `atDepth` answers is a run; on types that are ready it answers.
-/
theorem atDepth_ends : ∀ (depth : Nat) (T : VarTable) (a b : Ty), T.Wf →
    EndsAsRun o (atDepth o depth a b) T [(a, b)] (¬ Ready n depth T a b)
  | 0, T, a, b, h => fun hr =>
    Nat.not_lt_zero _ (hr.deep T h (.refl h.toLinked) rfl hr.low)
  | depth + 1, T, a, b, h => by
    unfold atDepth
    refine Action.ends_get_bind ?_
    obtain ⟨ha, hma⟩ | ⟨⟨f, ha⟩, hma⟩ := T.checkedLeader_cases a
    · obtain ⟨hb, hmb⟩ | ⟨⟨f, hb⟩, hmb⟩ := T.checkedLeader_cases b
      · simp only [ha, hb, Action.require, pure_bind]
        split
        · rename_i qs hc
          refine (forM_ends (atDepth_ends depth) qs T h).mono (fun _ T' hr ps e U hU => ?_)
            (fun e T' hr ps => .parts hc (hr ps)) fun _ hf hr => hf fun q hq => ?_
          · exact .parts hc (hr ps e U hU)
          · have ⟨h1, h2⟩ := (Ty.confront_eq_parts.1 hc).mem_parts hq
            exact hr.part h h1 h2
        · rename_i v w hc
          obtain ⟨hv, hw, -⟩ := Ty.confront_eq_merge.1 hc
          exact Action.ends_set fun ps e U hU => .merge hc (lt_of_leader_eq_var h hma hv)
            (lt_of_leader_eq_var h hmb hw) hU
        · rename_i v t hc
          obtain ⟨hvt, -⟩ := Ty.confront_eq_assign.1 hc
          have hv : v < T.size := hvt.elim (fun hl => lt_of_leader_eq_var h hma hl.1)
            fun hl => lt_of_leader_eq_var h hmb hl.2
          refine assign_ends hv (fun ho hm ps e U hU => .assign hc hv hm ho hU)
            (fun ho ps => .occurs ps hc ho) fun hm _ hr => hm ?_
          rcases hvt with ⟨-, rfl⟩ | ⟨rfl, -⟩
          · exact h.minted_leader hr.right_minted
          · exact h.minted_leader hr.left_minted
        · rename_i hc
          exact mismatch_ends (fun ps => .clash ps (by rw [hc]; rfl)) fun hm _ hr =>
            hm ⟨h.minted_leader hr.left_minted, h.minted_leader hr.right_minted⟩
        · rename_i hc
          exact Action.ends_fail fun ps => .clash ps (by rw [hc]; rfl)
        · rename_i m n hc
          exact Action.ends_fail fun ps => .clash ps (by rw [hc]; rfl)
      · rw [ha, hb]
        exact fun hr => hmb hr.right_minted
    · rw [ha]
      exact fun hr => hma hr.left_minted

end

end TypeInference.Unify

namespace TypeInference.VarTable

open Unify

variable {o : Origin} {T : VarTable} {a b : Ty}

/-- Minted types are ready for the depth that `unify` allows itself. -/
theorem exists_ready (T : VarTable) (a b : Ty) :
    ∃ n, T.Minted a → T.Minted b → Ready n (T.depthBound [a, b]) T a b := by
  obtain ⟨n, hl, hn, hd⟩ := T.lt_depthBound [a, b]
  refine ⟨n, fun ha hb => ⟨ha, hb, hl, hn a (by simp), hn b (by simp), fun T' h' he hs hl' => ?_⟩⟩
  have := h'.height_resolve_le hl' a
  have := hn a (by simp)
  rw [hs] at *
  omega

/-- What `unify` answers is a run. -/
theorem Wf.unify_ends (h : T.Wf) (a b : Ty) (o : Origin) :
    (unify a b o).Ends T (fun _ T' => Run o T [(a, b)] none T')
      (fun e T' => Run o T [(a, b)] (some e) T') fun _ => ¬ (T.Minted a ∧ T.Minted b) := by
  obtain ⟨n, hn⟩ := T.exists_ready a b
  have hrun := atDepth_ends (o := o) (n := n) (T.depthBound [a, b]) T a b h
  exact (Action.ends_get_bind hrun).mono (fun _ T' hr => hr [] none T' (.done T'))
    (fun e T' hr => hr []) fun _ hf hm => hf (hn hm.1 hm.2)

/-- On minted types `unify` answers. -/
theorem Wf.unify_run (h : T.Wf) (ha : T.Minted a) (hb : T.Minted b) (o : Origin) :
    (∃ T', (unify a b o).outcome T = (.ok (), T') ∧ Run o T [(a, b)] none T') ∨
      ∃ e T', (unify a b o).outcome T = (.error (.error e), T') ∧ Run o T [(a, b)] (some e) T' := by
  have hr := h.unify_ends a b o
  unfold Action.Ends at hr
  split at hr
  · rename_i T' hu
    exact .inl ⟨T', hu, hr⟩
  · rename_i e T' hu
    exact .inr ⟨e, T', hu, hr⟩
  · exact absurd ⟨ha, hb⟩ hr

end TypeInference.VarTable
