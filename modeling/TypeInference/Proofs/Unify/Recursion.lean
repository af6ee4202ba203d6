import Mathlib.Data.Finset.Card
import TypeInference.Proofs.Unify.Symmetric

/-!
# The recursion of unification

`unify` counts the levels that it goes down, and never runs out of them: on minted types it does
what one level does that calls `unify` itself for the pairs of parts (`Wf.unify_eq`). So the
recursion is that of `Calls`. Making the types of a call equal calls for a pair of parts of their
outermost forms, in the table that the pairs before it leave.

What goes down along it has two parts. A run that changes the table at all leaves fewer classes
unbound (`Run.fewer`); if the pairs before a call changed nothing, its types are parts of those of
its caller under the same bindings, so that they resolve to smaller types (`Calls.smaller`).
Resolved sizes alone would not do: what the earlier pairs bind can make the types of a call larger
than those of its caller. `unify_terminates` says this of every call that is made, at any depth.
-/

namespace TypeInference.VarTable

variable {T T' : VarTable} {u v w : TyVar}

/-! ## Counting unbound classes -/

instance (T : VarTable) : DecidablePred T.Unbound := fun v =>
  decidable_of_iff (v < T.size ∧ T.root v = v ∧ T.value? v = none)
    ⟨fun ⟨hl, hr, hv⟩ => ⟨hl, hr, hv⟩, fun h => ⟨h.lt, h.root, h.value⟩⟩

/-- The number of unbound classes, each counted at its root. -/
def unboundCount (T : VarTable) : Nat := ((Finset.range T.size).filter T.Unbound).card

/-- A table in which fewer variables are unbound roots. -/
theorem unboundCount_lt (hs : ∀ u, T'.Unbound u → T.Unbound u) (hv : T.Unbound v)
    (hv' : ¬ T'.Unbound v) : T'.unboundCount < T.unboundCount := by
  refine Finset.card_lt_card ((Finset.ssubset_iff_of_subset ?_).2 ⟨v, ?_, ?_⟩)
  · intro u hu
    have hu := hs u (Finset.mem_filter.1 hu).2
    exact Finset.mem_filter.2 ⟨Finset.mem_range.2 hu.lt, hu⟩
  · exact Finset.mem_filter.2 ⟨Finset.mem_range.2 hv.lt, hv⟩
  · intro hm
    exact hv' (Finset.mem_filter.1 hm).2

/-- A merger of two unbound classes leaves one root less. -/
theorem Wf.unboundCount_unite (h : T.Wf) (hv : v < T.size) (hw : w < T.size)
    (hne : T.root v ≠ T.root w) (hvv : T.value? v = none) (hvw : T.value? w = none) :
    (T.unite v w).unboundCount < T.unboundCount := by
  obtain ⟨-, hval, l, k, hlk, hroot⟩ := h.unite_spec hv hw hne hvv hvw
  have hl : T.Unbound l ∧ k ≠ l := by
    rcases hlk with ⟨rfl, rfl⟩ | ⟨rfl, rfl⟩
    · exact ⟨⟨h.root_lt hv, h.root_root v, by rw [h.value?_root, hvv]⟩, hne.symm⟩
    · exact ⟨⟨h.root_lt hw, h.root_root w, by rw [h.value?_root, hvw]⟩, hne⟩
  have hk : T.root k = k := by
    rcases hlk with ⟨-, rfl⟩ | ⟨-, rfl⟩ <;> exact h.root_root _
  refine unboundCount_lt (fun u hu => ⟨by simpa using hu.lt, ?_, by rw [← hval, hu.value]⟩) hl.1
    fun hu => hl.2 ?_
  · have hu := hu.root
    rw [hroot] at hu
    split at hu
    · rename_i hul
      rw [← hu, hk] at hul
      exact absurd hul hl.2
    · exact hu
  · have hu := hu.root
    rwa [hroot, if_pos hl.1.root] at hu

/-- A binding leaves one unbound class less. -/
theorem Wf.unboundCount_assign (h : T.Wf) (hv : v < T.size) (hvv : T.value? v = none) (t : Ty) :
    (T.assign v t).unboundCount < T.unboundCount := by
  have hroot := h.root_assign t hv
  have hval := h.value?_assign t hv
  refine unboundCount_lt (v := T.root v) (fun u hu => ⟨by simpa using hu.lt, ?_, ?_⟩)
    ⟨h.root_lt hv, h.root_root v, by rw [h.value?_root, hvv]⟩ fun hu => ?_
  · rw [← hroot, hu.root]
  · have hu := hu.value
    rw [hval] at hu
    split at hu
    · cases hu
    · exact hu
  · have hu := hu.value
    rw [hval, if_pos (h.root_root v)] at hu
    cases hu

end TypeInference.VarTable

namespace TypeInference.Unify

open VarTable Ty

variable {o : Origin} {T T' : VarTable} {a b : Ty} {ps qs : List (Ty × Ty)} {e : Option TypeError}

/-- A run that ends well, and another from the table that it leaves. -/
theorem Run.append (hr : Run o T ps none T') {T'' : VarTable} (hr' : Run o T' qs e T'') :
    Run o T (ps ++ qs) e T'' := by
  generalize he : (none : Option TypeError) = e' at hr
  induction hr with
  | done T => exact hr'
  | parts hc _ ih => exact .parts hc (List.append_assoc .. ▸ ih hr' he)
  | merge hc hv hw _ ih => exact .merge hc hv hw (ih hr' he)
  | assign hc hv ht ho _ ih => exact .assign hc hv ht ho (ih hr' he)
  | occurs _ _ _ => cases he
  | clash _ _ => cases he

/-- A run leaves the table as it is, or fewer classes unbound. -/
theorem Run.fewer (hr : Run o T ps e T') (h : T.Wf) :
    T' = T ∨ T'.unboundCount < T.unboundCount := by
  induction hr with
  | done T => exact .inl rfl
  | parts _ _ ih => exact ih h
  | merge hc hv hw _ ih =>
    obtain ⟨ha, hb, hne⟩ := confront_eq_merge.1 hc
    obtain ⟨hrv, hvv⟩ := h.of_leader_eq_var ha
    obtain ⟨hrw, hvw⟩ := h.of_leader_eq_var hb
    have hlt := h.unboundCount_unite hv hw (by rwa [hrv, hrw]) hvv hvw
    rcases ih (unite_of_merge h hc hv hw).1 with rfl | hlt'
    · exact .inr hlt
    · exact .inr (hlt'.trans hlt)
  | @assign T T' a b t v ps e hc hv ht ho _ ih =>
    obtain ⟨⟨-, hvv⟩, -⟩ := unbound_of_assign h hc
    have hlt := h.unboundCount_assign hv hvv t
    rcases ih (assign_of_assign h hc hv ht ho).1 with rfl | hlt'
    · exact .inr hlt
    · exact .inr (hlt'.trans hlt)
  | occurs _ _ _ => exact .inl rfl
  | clash _ _ => exact .inl rfl

theorem Run.unboundCount_le (hr : Run o T ps e T') (h : T.Wf) :
    T'.unboundCount ≤ T.unboundCount := by
  rcases hr.fewer h with rfl | hlt
  · exact Nat.le_refl _
  · exact Nat.le_of_lt hlt

/-! ## Unification without depth -/

/-- One level of unification, which calls `rec` for each pair of parts. -/
def level (o : Origin) (rec : Ty → Ty → Action VarTable Unit) (a b : Ty) :
    Action VarTable Unit := do
  let T ← get
  let a ← Action.require (T.checkedLeader a)
  let b ← Action.require (T.checkedLeader b)
  match a.confront b with
  | .parts pairs => pairs.forM fun p => rec p.1 p.2
  | .merge v w => set (T.unite v w)
  | .assign v t => assign o v t
  | .differentShape => mismatch o a b
  | .differentNames => Action.fail (.mismatch a b o)
  | .differentArity expected found => Action.fail (.arityMismatch expected found o)

/-- What is answered at the end of a run. -/
def answer : Option TypeError → Except Stop Unit
  | none => .ok ()
  | some e => .error (.error e)

theorem exists_run {x : Action VarTable Unit}
    (hx : x.Ends T (fun _ T' => Run o T ps none T') (fun e T' => Run o T ps (some e) T')
      fun _ => False) : ∃ e T', x.outcome T = (answer e, T') ∧ Run o T ps e T' := by
  unfold Action.Ends at hx
  rcases hxo : x.outcome T with ⟨(e | f) | ⟨⟩, T'⟩ <;> rw [hxo] at hx
  · exact ⟨some e, T', rfl, hx⟩
  · exact hx.elim
  · exact ⟨none, T', rfl, hx⟩

/-- With depth enough, the depth makes no difference. -/
theorem Ready.outcome_eq {n depth : Nat} (hr : Ready n depth T a b) (h : T.Wf) :
    (atDepth o depth a b).outcome T = (unify a b o).outcome T := by
  obtain ⟨e, T1, hx, hx1⟩ := exists_run ((atDepth_ends (o := o) (n := n) depth T a b h).mono
    (fun _ T' hT => hT [] none T' (.done T')) (fun e T' he => he []) fun _ hn => hn hr)
  obtain ⟨e', T2, hy, hy2⟩ := exists_run ((h.unify_ends a b o).mono (fun _ _ => id) (fun _ _ => id)
    fun _ hn => hn ⟨hr.left_minted, hr.right_minted⟩)
  obtain ⟨rfl, rfl⟩ := hx1.unique hy2
  rw [hx, hy]

theorem Ready.forM_outcome_eq {n depth : Nat} : ∀ (qs : List (Ty × Ty)) {T : VarTable}, T.Wf →
    (∀ q ∈ qs, Ready n depth T q.1 q.2) →
    (qs.forM fun q => atDepth o depth q.1 q.2).outcome T =
      (qs.forM fun q => unify q.1 q.2 o).outcome T
  | [], _, _, _ => rfl
  | (s, t) :: qs, T, h, hq => by
    obtain ⟨hst, hqs⟩ := List.forall_mem_cons.1 hq
    show (atDepth o depth s t >>= fun _ => qs.forM _).outcome T =
      (unify s t o >>= fun _ => qs.forM _).outcome T
    rw [Action.outcome_bind, Action.outcome_bind, hst.outcome_eq h]
    have hu := h.unify_ends s t o
    unfold Action.Ends at hu
    rcases hx : (unify s t o).outcome T with ⟨e | ⟨⟩, T1⟩
    · rfl
    · rw [hx] at hu
      obtain ⟨h1, he, hs⟩ := Run.wf hu h
      have hl : T1.Low n := hu.low h hst.low (by simp [hst.left_low, hst.right_low])
      exact Ready.forM_outcome_eq qs h1 fun q hm => (hqs q hm).later he hs hl

end TypeInference.Unify

namespace TypeInference.VarTable

open Unify

/-- On minted types unification is one level that calls unification for the pairs of parts. -/
theorem Wf.unify_eq {T : VarTable} (h : T.Wf) {a b : Ty} (ha : T.Minted a) (hb : T.Minted b)
    (o : Origin) :
    (unify a b o).outcome T = (level o (fun s t => unify s t o) a b).outcome T := by
  obtain ⟨n, hr⟩ := T.exists_ready a b
  obtain ⟨values, -, hd⟩ := T.depthBound_eq [a, b]
  replace hr := hr ha hb
  have hu : (unify a b o).outcome T = (atDepth o (T.depthBound [a, b]) a b).outcome T := by
    unfold unify
    exact Action.outcome_get_bind _ T
  rw [hd] at hr hu
  rw [hu]
  generalize (T.size + 1) * (((([a, b] ++ values).map Ty.height).foldl max 0) + 1) = depth at hr
  obtain ⟨hla, -⟩ | ⟨-, hn⟩ := T.checkedLeader_cases a
  · obtain ⟨hlb, -⟩ | ⟨-, hn⟩ := T.checkedLeader_cases b
    · unfold atDepth level
      rw [Action.outcome_get_bind, Action.outcome_get_bind, hla, hlb]
      simp only [Action.require, pure_bind]
      cases hc : (T.leader a).confront (T.leader b) with
      | parts qs =>
        refine Ready.forM_outcome_eq (n := n) qs h fun q hq => ?_
        obtain ⟨h1, h2⟩ := (Ty.confront_eq_parts.1 hc).mem_parts hq
        exact hr.part h h1 h2
      | _ => rfl
    · exact absurd hb hn
  · exact absurd ha hn

end TypeInference.VarTable

namespace TypeInference.Unify

open VarTable Ty

/-! ## Recursive calls -/

/-- A call of unification: the table that it finds and the two types to be made equal. -/
structure Call where
  table : VarTable
  left : Ty
  right : Ty

/-- The combined size of the two types as the table resolves them. -/
def Call.size (c : Call) : Nat := (c.table.resolve c.left).size + (c.table.resolve c.right).size

/-- A call on minted types of a table without cycles. -/
structure Call.Valid (c : Call) : Prop where
  wf : c.table.Wf
  left_minted : c.table.Minted c.left
  right_minted : c.table.Minted c.right

/-- The call makes another one: for a pair of parts of its outermost forms, in the table that the
pairs before it leave. -/
inductive Calls (o : Origin) (c : Call) : Call → Prop
  | part (before after : List (Ty × Ty)) {T' : VarTable} {s t : Ty} :
      (c.table.leader c.left).confront (c.table.leader c.right) =
        .parts (before ++ (s, t) :: after) →
      (before.forM fun q => unify q.1 q.2 o).outcome c.table = (.ok (), T') →
      Calls o c ⟨T', s, t⟩

variable {o : Origin} {T T' : VarTable} {c c' : Call}

/-- Pairs made equal one after the other are a run over all of them. -/
theorem run_of_forM : ∀ (qs : List (Ty × Ty)) {T : VarTable}, T.Wf →
    (qs.forM fun q => unify q.1 q.2 o).outcome T = (.ok (), T') → Run o T qs none T'
  | [], _, _, hu => by
    cases hu
    exact .done T'
  | (s, t) :: qs, T, h, hu => by
    obtain ⟨⟨⟩, T1, h1, h2⟩ := Action.outcome_bind_eq_ok (x := unify s t o).1 hu
    have hr1 : Run o T [(s, t)] none T1 := (h.unify_ends s t o).of_ok h1
    exact hr1.append (run_of_forM qs (hr1.wf h).1 h2)

theorem minted_of_part (h : T.Wf) {s t : Ty} (ht : T.Minted t) (hs : s ∈ (T.leader t).parts) :
    T.Minted s := by
  intro v hv
  exact h.minted_leader ht v (occurrences_of_mem_parts hs hv)

/-- A part of the outermost form of a type resolves to less than the type does. -/
theorem size_resolve_lt (h : T.Wf) {s t : Ty} (hs : s ∈ (T.leader t).parts) :
    (T.resolve s).size < (T.resolve t).size := by
  rw [← h.resolve_leader t, resolve_eq_bind, resolve_eq_bind (T.leader t)]
  exact size_lt_of_mem_parts (bind_mem_parts hs _)

/-- A call is smaller than its caller: no more classes are unbound, and if as many are, its types
are smaller. -/
theorem Calls.smaller (hc : Calls o c c') (h : c.Valid) :
    c'.Valid ∧ c'.table.unboundCount ≤ c.table.unboundCount ∧
      (c'.table.unboundCount < c.table.unboundCount ∨ c'.size < c.size) := by
  obtain ⟨T, a, b⟩ := c
  obtain @⟨before, after, T', s, t, hq, hu⟩ := hc
  have hr := run_of_forM before h.wf hu
  obtain ⟨h', he, -⟩ := hr.wf h.wf
  have ⟨hs, ht⟩ := (confront_eq_parts.1 hq).mem_parts (p := (s, t)) (by simp)
  refine ⟨⟨h', ?_, ?_⟩, hr.unboundCount_le h.wf, ?_⟩
  · exact (minted_of_part h.wf h.left_minted hs).mono he.size_le
  · exact (minted_of_part h.wf h.right_minted ht).mono he.size_le
  · rcases hr.fewer h.wf with rfl | hlt
    · have hlts : (T'.resolve s).size < (T'.resolve a).size := size_resolve_lt h.wf hs
      have hltt : (T'.resolve t).size < (T'.resolve b).size := size_resolve_lt h.wf ht
      right
      show (T'.resolve s).size + (T'.resolve t).size < (T'.resolve a).size + (T'.resolve b).size
      omega
    · exact .inl hlt

/-- No valid call leads to an endless chain of calls. -/
theorem Call.Valid.acc (o : Origin) (hc : c.Valid) : Acc (fun c' c => Calls o c c') c := by
  -- on the number of unbound classes, and for one number on the size
  induction hn : c.table.unboundCount using Nat.strongRecOn generalizing c with
  | _ n ihn =>
    induction hm : c.size using Nat.strongRecOn generalizing c with
    | _ m ihm =>
      subst hn hm
      refine ⟨c, fun c' hcc => ?_⟩
      obtain ⟨hv, hle, hlt⟩ := hcc.smaller hc
      by_cases heq : c'.table.unboundCount = c.table.unboundCount
      · exact ihm _ (by omega) hv heq rfl
      · exact ihn _ (by omega) hv rfl

theorem Call.Valid.of_calls (h : c.Valid) (hc : Relation.ReflTransGen (Calls o) c c') :
    c'.Valid := by
  induction hc with
  | refl => exact h
  | tail _ hc ih => exact (hc.smaller ih).1

/-- A valid call is answered, and leaves no more classes unbound than it finds. -/
theorem Call.Valid.answers (h : c.Valid) (o : Origin) :
    ∃ T', (unify c.left c.right o).Answers c.table T' ∧
      T'.unboundCount ≤ c.table.unboundCount := by
  obtain ⟨T', hu, hr⟩ | ⟨e, T', hu, hr⟩ := h.wf.unify_run h.left_minted h.right_minted o
  · exact ⟨T', Action.answers_of_ok hu, hr.unboundCount_le h.wf⟩
  · exact ⟨T', Action.answers_of_error hu, hr.unboundCount_le h.wf⟩

end TypeInference.Unify

namespace TypeInference.VarTable

open Unify

/-- Unification ends. On a reachable table and minted types there is no endless chain of recursive
calls. Each call `c` that is made at any depth does one level of unification with recursive calls
for the rest; it is answered, in a table with no more unbound classes than it found; and a call that
it makes finds fewer unbound classes than `c` did, or no more and types of a smaller combined size.
-/
theorem unify_terminates {T : VarTable} (hT : Reachable T) {a b : Ty} (ha : T.Minted a)
    (hb : T.Minted b) (o : Origin) :
    Acc (fun c' c => Calls o c c') ⟨T, a, b⟩ ∧
      ∀ c, Relation.ReflTransGen (Calls o) ⟨T, a, b⟩ c →
        (unify c.left c.right o).outcome c.table =
            (level o (fun s t => unify s t o) c.left c.right).outcome c.table ∧
          (∃ T', (unify c.left c.right o).Answers c.table T' ∧
            T'.unboundCount ≤ c.table.unboundCount) ∧
          ∀ c', Calls o c c' → c'.table.unboundCount ≤ c.table.unboundCount ∧
            (c'.table.unboundCount < c.table.unboundCount ∨ c'.size < c.size) := by
  have h : Call.Valid ⟨T, a, b⟩ := ⟨hT.wf, ha, hb⟩
  refine ⟨h.acc o, fun c hc => ?_⟩
  have hv := h.of_calls hc
  refine ⟨hv.wf.unify_eq hv.left_minted hv.right_minted o, hv.answers o, fun c' hcc => ?_⟩
  exact (hcc.smaller hv).2

/-- A parameter binds a variable that the results mention four times, so the call for the results
has larger types than its caller; but a class less is unbound. -/
theorem unify_terminates_enlarged :
    let T : VarTable := (∅ : VarTable).mint.2.mint.2.mint.2
    let T' : VarTable := ⟨#[.root 0 (some (.fn [.int, .int] (.var 1))), .root 0 none, .root 0 none]⟩
    let r : Ty := .fn [.var 0, .var 0, .var 0] (.var 0)
    let c : Call := ⟨T, .fn [.var 0] r, .fn [.fn [.int, .int] (.var 1)] (.var 2)⟩
    let c' : Call := ⟨T', r, .var 2⟩
    Calls .builtin c c' ∧ c.size < c'.size ∧
      c'.table.unboundCount < c.table.unboundCount ∧
      Acc (fun c' c => Calls .builtin c c') c := by
  intro T T' r c c'
  have hT : Reachable T := .tail (.tail (.tail .refl (.mint _)) (.mint _)) (.mint _)
  have hcall : Calls .builtin c c' :=
    .part [(.var 0, .fn [.int, .int] (.var 1))] [] rfl rfl
  have hsize : c.size < c'.size := by decide +kernel
  obtain ⟨hacc, hcalls⟩ := unify_terminates hT (a := c.left) (b := c.right) (by decide) (by decide)
    .builtin
  obtain ⟨-, hlt⟩ := (hcalls c .refl).2.2 c' hcall
  exact ⟨hcall, hsize, hlt.resolve_right (Nat.lt_asymm hsize), hacc⟩

end TypeInference.VarTable
