import TypeInference.Proofs.Session
import TypeInference.Proofs.Unify.Reachable
import TypeInference.Proofs.VarTable.Checks

/-!
# Resolved types are normal forms

On every table that can arise, `resolve` leaves nothing to be looked through: it writes unbound
roots only, changes nothing the second time, gives all variables of a class one type, and agrees
with `leader` on the outermost form (`Reachable.resolve_normal`).

Reading takes nothing from the table. It may only shorten the way to a root: `compress` hangs a
variable directly under the root of its class, as a look-up does with the variables that it passes.
Whatever variables are hung anew, in whatever order (`Compressed`), classes and bindings stay, and
so does every reading (`Compressed.readings`).
-/

namespace TypeInference

/-- The outermost forms are the same: the constructor, and what it carries besides types. -/
inductive Ty.SameForm : Ty → Ty → Prop
  | var (v : TyVar) : SameForm (.var v) (.var v)
  | con (n : String) : SameForm (.con n) (.con n)
  | ptr (s t : Ty) : SameForm (.ptr s) (.ptr t)
  | fn {ps qs : List Ty} (r s : Ty) : ps.length = qs.length → SameForm (.fn ps r) (.fn qs s)
  | struct (n : Option String) {fs gs : List (String × Ty)} :
      fs.map Prod.fst = gs.map Prod.fst → SameForm (.struct n fs) (.struct n gs)

/-- Replacing variables below the top keeps the outermost form. -/
theorem Ty.sameForm_bind {t : Ty} (ht : ∀ w, t ≠ .var w) (f : TyVar → Ty) :
    SameForm t (t.bind f) := by
  cases t with
  | var v => exact absurd rfl (ht v)
  | con n => exact .con n
  | ptr t => exact .ptr ..
  | fn ps r =>
    rw [bind, bindAll_eq_map]
    exact .fn _ _ (List.length_map _).symm
  | struct n fs =>
    rw [bind, bindFields_eq_map]
    exact .struct n (by simp)

namespace VarTable

section
variable {T T' : VarTable} {t : Ty}

/-! ## Leaders and resolved types -/

theorem Wf.leader_leader (h : T.Wf) (t : Ty) : T.leader (T.leader t) = T.leader t := by
  cases hl : T.leader t with
  | var w =>
    obtain ⟨hr, hv⟩ := h.of_leader_eq_var hl
    rw [h.leader_var, hv]
    exact congrArg Ty.var hr
  | _ => rfl

/-- Resolving goes on below the outermost form, which is that of the leader. -/
theorem Wf.sameForm_resolve (h : T.Wf) (t : Ty) : (T.leader t).SameForm (T.resolve t) := by
  rw [← h.resolve_leader]
  by_cases hl : ∃ w, T.leader t = .var w
  · obtain ⟨w, hl⟩ := hl
    obtain ⟨hr, hv⟩ := h.of_leader_eq_var hl
    rw [hl, h.resolve_unbound hv, hr]
    exact .var w
  · rw [resolve_eq_bind]
    exact Ty.sameForm_bind (fun w hw => hl ⟨w, hw⟩) _

theorem Wf.resolve_class (h : T.Wf) {v w : TyVar} (hvw : T.root v = T.root w) :
    T.resolve (.var v) = T.resolve (.var w) := by
  rw [← h.resolve_root v, hvw, h.resolve_root]

/-- Tables with the same classes and bindings read alike. -/
theorem Wf.readings_congr (h : T.Wf) (h' : T'.Wf) (hr : ∀ v, T'.root v = T.root v)
    (hv : ∀ v, T'.value? v = T.value? v) (t : Ty) :
    T'.leader t = T.leader t ∧ T'.resolve t = T.resolve t := by
  constructor
  · cases t with
    | var v => rw [h.leader_var, h'.leader_var, hr, hv]
    | _ => rfl
  · rw [resolve_eq_bind, T.resolve_eq_bind]
    -- along the bindings, which are those of both tables
    have hvar : ∀ v, T'.resolve (.var v) = T.resolve (.var v) := fun v => by
      induction v using h.induct with
      | step v ih =>
        rw [h.resolve_var, h'.resolve_var, hr, hv]
        cases hu : T.value? v with
        | none => rfl
        | some u =>
          dsimp only
          rw [resolve_eq_bind, T.resolve_eq_bind]
          exact Ty.bind_congr (ih u hu)
    exact Ty.bind_congr fun v _ => hvar v

/-! ## Shorter ways to the root -/

/-- Hang a variable that is no root directly under the root of its class. -/
def compress (T : VarTable) (v : TyVar) : VarTable :=
  match T.cells[v]? with
  | some (.link _) => ⟨T.cells.setIfInBounds v (.link (T.root v))⟩
  | _ => T

/-- Any number of variables were hung directly under their roots. -/
abbrev Compressed : VarTable → VarTable → Prop :=
  Relation.ReflTransGen fun T T' => ∃ v, T' = T.compress v

theorem compress_of_not_links {v : TyVar} (hn : ∀ p, ¬ T.Links v p) : T.compress v = T := by
  unfold compress
  split
  · exact absurd ‹_› (hn _)
  · rfl

theorem cells_compress {v p : TyVar} (hp : T.Links v p) (u : TyVar) :
    (T.compress v).cells[u]? = if u = v then some (.link (T.root v)) else T.cells[u]? := by
  have hv : v < T.cells.size := hp.lt_size
  unfold compress
  split
  · simp only [Array.getElem?_setIfInBounds, hv, if_true, eq_comm (a := v)]
  · rename_i hn
    exact absurd hp (hn p)

@[simp] theorem size_compress (T : VarTable) (v : TyVar) : (T.compress v).size = T.size := by
  unfold compress
  split <;> simp [size]

/-- A root stays what it is. -/
theorem Linked.cells_compress_root (h : T.Linked) (v u : TyVar) :
    (T.compress v).cells[T.root u]? = T.cells[T.root u]? := by
  by_cases hl : ∃ p, T.Links v p
  · obtain ⟨p, hp⟩ := hl
    rw [cells_compress hp, if_neg]
    rintro rfl
    exact h.not_links_root u p hp
  · rw [compress_of_not_links fun p hp => hl ⟨p, hp⟩]

theorem Linked.compress (h : T.Linked) (v : TyVar) :
    (T.compress v).Linked ∧ ∀ u, (T.compress v).root u = T.root u := by
  by_cases hl : ∃ p, T.Links v p
  · obtain ⟨p, hp⟩ := hl
    have hlinks : ∀ u q, (T.compress v).Links u q ↔ if u = v then q = T.root v else T.Links u q :=
      fun u q => by
        unfold Links
        rw [cells_compress hp]
        split
        · simp [eq_comm]
        · rfl
    -- the links of the old table still fall, and the new one falls to the end of their chain
    obtain ⟨rank, hr⟩ := h.falls
    have hle : ∀ u, rank (T.root u) ≤ rank u := fun u => by
      induction u using h.induct with
      | root u hn => rw [root_of_not_links hn]
      | link u q hq ih =>
        rw [h.root_of_links hq]
        exact Nat.le_trans ih (Nat.le_of_lt (hr u q hq))
    have h' : (T.compress v).Linked := by
      refine ⟨fun u q hq => ?_, rank, fun u q hq => ?_⟩
      · rw [size_compress]
        have hq := (hlinks u q).1 hq
        split at hq
        · exact hq ▸ h.root_lt hp.lt_size
        · exact h.lt u q hq
      · have hq := (hlinks u q).1 hq
        split at hq
        · rename_i huv
          rw [hq, huv, h.root_of_links hp]
          exact Nat.lt_of_le_of_lt (hle p) (hr v p hp)
        · exact hr u q hq
    have hroot : ∀ u, (T.compress v).root (T.root u) = T.root u := fun u =>
      root_of_not_links fun q hq => h.not_links_root u q
        ((h.cells_compress_root v u).symm.trans hq)
    refine ⟨h', fun u => ?_⟩
    induction u using h.induct with
    | root u hn =>
      have hu := hroot u
      rwa [root_of_not_links hn] at hu ⊢
    | link u q hq ih =>
      by_cases huv : u = v
      · have hnew : (T.compress v).Links u (T.root u) := (hlinks u _).2 (by rw [if_pos huv, huv])
        rw [h'.root_of_links hnew, hroot]
      · rw [h'.root_of_links ((hlinks u q).2 (by rwa [if_neg huv])), ih, h.root_of_links hq]
  · rw [compress_of_not_links fun p hp => hl ⟨p, hp⟩]
    exact ⟨h, fun _ => rfl⟩

theorem Linked.value?_compress (h : T.Linked) (v u : TyVar) :
    (T.compress v).value? u = T.value? u := by
  unfold value?
  rw [(h.compress v).2, h.cells_compress_root]

theorem Wf.compress (h : T.Wf) (v : TyVar) : (T.compress v).Wf := by
  obtain ⟨hl, hr⟩ := h.toLinked.compress v
  have hv := h.toLinked.value?_compress v
  refine ⟨hl, fun u t ht => ?_, fun u t ht => h.value_ne_var u t (hv u ▸ ht), ?_⟩
  · unfold Minted
    rw [size_compress]
    exact h.value_lt u t (hv u ▸ ht)
  · obtain ⟨rank, hrank⟩ := h.acyclic
    refine ⟨rank, fun u t ht w hw => ?_⟩
    rw [hr, hr]
    exact hrank u t (hv u ▸ ht) w hw

/-- Shortened ways lead to the same roots, and every type reads as before. -/
theorem Compressed.readings (h : T.Wf) (hc : Compressed T T') : T'.Wf ∧
    (∀ v, T'.root v = T.root v ∧ T'.value? v = T.value? v) ∧
      ∀ t, T'.leader t = T.leader t ∧ T'.resolve t = T.resolve t := by
  have hkept : T'.Wf ∧ ∀ v, T'.root v = T.root v ∧ T'.value? v = T.value? v := by
    induction hc with
    | refl => exact ⟨h, fun _ => ⟨rfl, rfl⟩⟩
    | tail _ hs ih =>
      obtain ⟨w, rfl⟩ := hs
      obtain ⟨hw, hk⟩ := ih
      refine ⟨hw.compress w, fun v => ⟨?_, ?_⟩⟩
      · rw [(hw.toLinked.compress w).2, (hk v).1]
      · rw [hw.toLinked.value?_compress, (hk v).2]
  refine ⟨hkept.1, hkept.2, fun t => ?_⟩
  exact h.readings_congr hkept.1 (fun v => (hkept.2 v).1) (fun v => (hkept.2 v).2) t

end

/-- On every table that can arise: a resolved type mentions unbound roots only and is its own
resolution; a leader is its own leader, has the same resolution as the type that it leads and the
same outermost form as that; the variables of one class resolve alike. A session answers both
questions about a type of minted variables and stays as it is, and however a look-up shortens the
ways to the roots, classes, bindings and answers stay. -/
theorem Reachable.resolve_normal {T : VarTable} (hT : Reachable T) :
    (∀ t, T.Minted t → (∀ v ∈ (T.resolve t).occurrences, T.Unbound v) ∧
      T.resolve (T.resolve t) = T.resolve t ∧ T.leader (T.leader t) = T.leader t ∧
      T.resolve (T.leader t) = T.resolve t ∧ (T.leader t).SameForm (T.resolve t) ∧
      ∀ S : Session, S.table = T → S.step (.resolve t) = .ok (.type (T.resolve t), S) ∧
        S.step (.leader t) = .ok (.type (T.leader t), S)) ∧
    (∀ v w, T.root v = T.root w → T.resolve (.var v) = T.resolve (.var w)) ∧
    ∀ T', Compressed T T' → (∀ v, T'.root v = T.root v ∧ T'.value? v = T.value? v) ∧
      ∀ t, T'.leader t = T.leader t ∧ T'.resolve t = T.resolve t := by
  have h := hT.wf
  refine ⟨fun t ht => ⟨fun v => h.unbound_of_mem_resolve ht, h.resolve_resolve t,
    h.leader_leader t, h.resolve_leader t, h.sameForm_resolve t, ?_⟩,
    fun v w => h.resolve_class, fun T' hc => (hc.readings h).2⟩
  rintro S rfl
  constructor
  · simp only [Session.step, checkedResolve_of_minted ht]
    rfl
  · have hl : S.table.checkedLeader t = .ok (S.table.leader t) := by
      obtain ⟨hl, -⟩ | ⟨-, hn⟩ := S.table.checkedLeader_cases t
      · exact hl
      · exact absurd ht hn
    simp only [Session.step, hl]
    rfl

/-- A variable two links away from its root, which a unification that failed in the end put under
that root, and a class that is bound to a pointer to it. -/
theorem resolve_normal_after_failure :
    let T : VarTable :=
      ⟨#[.link 1, .link 3, .link 3, .root 2 none, .root 0 (some (.ptr (.var 0)))]⟩
    let T' : VarTable :=
      ⟨#[.link 3, .link 3, .link 3, .root 2 none, .root 0 (some (.ptr (.var 0)))]⟩
    T.leader (.var 4) = .ptr (.var 0) ∧ T.resolve (.var 4) = .ptr (.var 3) ∧ T.Unbound 3 ∧
      T.resolve (.ptr (.var 0)) = T.resolve (.ptr (.var 3)) ∧ T.resolve (.var 0) = .var 3 ∧
      T'.root 0 = 3 ∧ T'.leader (.var 4) = .ptr (.var 0) ∧ T'.resolve (.var 4) = .ptr (.var 3) := by
  intro T T'
  have h5 : Reachable ((∅ : VarTable).mint.2.mint.2.mint.2.mint.2.mint.2) :=
    .tail (.tail (.tail (.tail (.tail .refl (.mint _)) (.mint _)) (.mint _)) (.mint _)) (.mint _)
  have h01 : (unify (.var 0) (.var 1) .builtin).Answers
      ((∅ : VarTable).mint.2.mint.2.mint.2.mint.2.mint.2)
      ⟨#[.link 1, .root 1 none, .root 0 none, .root 0 none, .root 0 none]⟩ := ⟨rfl, nofun⟩
  have h23 : (unify (.var 2) (.var 3) .builtin).Answers
      ⟨#[.link 1, .root 1 none, .root 0 none, .root 0 none, .root 0 none]⟩
      ⟨#[.link 1, .root 1 none, .link 3, .root 1 none, .root 0 none]⟩ := ⟨rfl, nofun⟩
  have h4 : (unify (.ptr (.var 0)) (.var 4) .builtin).Answers
      ⟨#[.link 1, .root 1 none, .link 3, .root 1 none, .root 0 none]⟩
      ⟨#[.link 1, .root 1 none, .link 3, .root 1 none, .root 0 (some (.ptr (.var 0)))]⟩ :=
    ⟨rfl, nofun⟩
  have hf : (unify (.fn [.var 0] .int) (.fn [.var 2] .bool) .builtin).Answers
      ⟨#[.link 1, .root 1 none, .link 3, .root 1 none, .root 0 (some (.ptr (.var 0)))]⟩ T :=
    ⟨rfl, nofun⟩
  have hT : Reachable T := .tail (.tail (.tail (.tail h5 (.unify _ _ _ h01)) (.unify _ _ _ h23))
    (.unify _ _ _ h4)) (.unify _ _ _ hf)
  obtain ⟨hread, hclass, hcompressed⟩ := hT.resolve_normal
  have hleader : T.leader (.var 4) = .ptr (.var 0) := rfl
  have hresolve : T.resolve (.var 4) = .ptr (.var 3) := rfl
  obtain ⟨hunbound, hagain, -, hlead, -⟩ := hread (.var 4) (by decide)
  obtain ⟨hroot, htypes⟩ := hcompressed T' (.single ⟨0, rfl⟩)
  refine ⟨hleader, hresolve, hunbound 3 (by rw [hresolve]; decide), ?_, hclass 0 3 rfl, ?_, ?_, ?_⟩
  · rw [← hleader, ← hresolve, hlead, hagain]
  · exact (hroot 0).1
  · rw [(htypes _).1, hleader]
  · rw [(htypes _).2, hresolve]

end VarTable

end TypeInference
