import Mathlib.Data.Finset.Card
import Mathlib.Data.Finset.Range
import TypeInference.VarTable.Basic

/-!
# Classes of variables

`Linked T`: the links of `T` lead to minted variables and form no cycle. On a linked table `root`
obeys two equations that mention no fuel, `Linked.root_of_links` and `root_of_not_links`, and
`Linked.induct` is induction along the links.

What each growth operation does to the classes is said once, in terms of `root` and `value?`:

* `mint` changes neither (`Linked.root_mint`, `Linked.value?_mint`);
* `assign` changes `value?` on one class (`Linked.root_assign`, `Linked.value?_assign`);
* `unite` on two unbound classes gives the members of one the root of the other
  (`Linked.unite_spec`).

Nothing outside this module looks at the cells.
-/

namespace TypeInference.VarTable

/-! ## Rankings -/

/-- A ranking that falls along a relation into the numbers below `n` can be taken below `n`: count
what is ranked lower. -/
theorem exists_rank_lt {R : Nat → Nat → Prop} {n : Nat} {rank : Nat → Nat}
    (h : ∀ v w, R v w → w < n ∧ rank w < rank v) :
    ∃ rank' : Nat → Nat, (∀ v w, R v w → rank' w < rank' v) ∧ ∀ v < n, rank' v < n := by
  refine ⟨fun v => ((Finset.range n).filter fun u => rank u < rank v).card, fun v w hvw => ?_,
    fun v hv => ?_⟩
  · obtain ⟨hw, hlt⟩ := h v w hvw
    refine Finset.card_lt_card (Finset.ssubset_iff_subset_ne.2 ⟨fun u hu => ?_, fun he => ?_⟩)
    · simp only [Finset.mem_filter, Finset.mem_range] at hu ⊢
      exact ⟨hu.1, by omega⟩
    · have hm : w ∈ (Finset.range n).filter fun u => rank u < rank v := by simp [hw, hlt]
      rw [← he] at hm
      simp at hm
  · calc ((Finset.range n).filter fun u => rank u < rank v).card
        < (Finset.range n).card := Finset.card_lt_card
          (Finset.filter_ssubset.2 ⟨v, Finset.mem_range.2 hv, Nat.lt_irrefl _⟩)
      _ = n := Finset.card_range n

/-! ## Links -/

/-- `v` is no root but hangs under `p`. -/
def Links (T : VarTable) (v p : TyVar) : Prop := T.cells[v]? = some (.link p)

/-- Links lead to minted variables and form no cycle. -/
structure Linked (T : VarTable) : Prop where
  lt : ∀ v p, T.Links v p → p < T.size
  falls : ∃ rank : TyVar → Nat, ∀ v p, T.Links v p → rank p < rank v

section
variable {T : VarTable} {v w p : TyVar}

theorem Links.lt_size (h : T.Links v p) : v < T.size :=
  (Array.getElem?_eq_some_iff.1 h).1

theorem follow_of_not_links (h : ∀ p, ¬ T.Links v p) (n : Nat) : T.follow n v = v := by
  cases n with
  | zero => rfl
  | succ n =>
    unfold follow
    split
    · rename_i p hp
      exact absurd hp (h p)
    · rfl

theorem follow_of_links (h : T.Links v p) (n : Nat) : T.follow (n + 1) v = T.follow n p := by
  have hp : T.cells[v]? = some (.link p) := h
  simp only [follow, hp]

/-- With fuel for the rank of `v`, following ends at a root. -/
theorem not_links_follow {rank : TyVar → Nat} (hr : ∀ v p, T.Links v p → rank p < rank v) :
    ∀ (n : Nat) (v : TyVar), rank v ≤ n → ∀ p, ¬ T.Links (T.follow n v) p
  | 0, v, hn, p => fun h => by
    have := hr v p h
    omega
  | n + 1, v, hn, p => by
    by_cases hl : ∃ q, T.Links v q
    · obtain ⟨q, hq⟩ := hl
      rw [follow_of_links hq]
      exact not_links_follow hr n q (by have := hr v q hq; omega) p
    · rw [follow_of_not_links fun q hq => hl ⟨q, hq⟩]
      exact fun h => hl ⟨p, h⟩

/-- Fuel beyond a root changes nothing. -/
theorem follow_succ : ∀ (n : Nat) (v : TyVar), (∀ p, ¬ T.Links (T.follow n v) p) →
    T.follow (n + 1) v = T.follow n v
  | 0, v, h => follow_of_not_links h 1
  | n + 1, v, h => by
    by_cases hl : ∃ q, T.Links v q
    · obtain ⟨q, hq⟩ := hl
      rw [follow_of_links hq] at h ⊢
      rw [follow_of_links hq]
      exact follow_succ n q h
    · rw [follow_of_not_links fun q hq => hl ⟨q, hq⟩, follow_of_not_links fun q hq => hl ⟨q, hq⟩]

/-! ## Roots -/

theorem root_of_not_links (h : ∀ p, ¬ T.Links v p) : T.root v = v := follow_of_not_links h _

theorem root_of_size_le (h : T.size ≤ v) : T.root v = v :=
  root_of_not_links fun _ hl => Nat.not_lt.2 h hl.lt_size

theorem Linked.exists_rank (h : T.Linked) :
    ∃ rank : TyVar → Nat, (∀ v p, T.Links v p → rank p < rank v) ∧ ∀ v < T.size, rank v < T.size :=
  have ⟨_, hr⟩ := h.falls
  exists_rank_lt fun v p hl => ⟨h.lt v p hl, hr v p hl⟩

theorem Linked.root_of_links (h : T.Linked) (hl : T.Links v p) : T.root v = T.root p := by
  obtain ⟨rank, hr, hlt⟩ := h.exists_rank
  obtain ⟨n, hn⟩ := Nat.exists_eq_succ_of_ne_zero (Nat.ne_zero_of_lt hl.lt_size)
  have hp := hlt p (h.lt v p hl)
  have hv := hr v p hl
  have hv' := hlt v hl.lt_size
  unfold root
  rw [hn, follow_of_links hl]
  exact (follow_succ n p (not_links_follow hr n p (by omega))).symm

theorem Linked.not_links_root (h : T.Linked) (v p : TyVar) : ¬ T.Links (T.root v) p := by
  by_cases hv : v < T.size
  · obtain ⟨rank, hr, hlt⟩ := h.exists_rank
    exact not_links_follow hr _ v (Nat.le_of_lt (hlt v hv)) p
  · rw [root_of_size_le (Nat.not_lt.1 hv)]
    exact fun hl => hv hl.lt_size

@[simp] theorem Linked.root_root (h : T.Linked) (v : TyVar) : T.root (T.root v) = T.root v :=
  root_of_not_links (h.not_links_root v)

/-- Induction along the links, from the roots. -/
theorem Linked.induct (h : T.Linked) {motive : TyVar → Prop}
    (root : ∀ v, (∀ p, ¬ T.Links v p) → motive v)
    (link : ∀ v p, T.Links v p → motive p → motive v) (v : TyVar) : motive v := by
  obtain ⟨rank, hr⟩ := h.falls
  induction hn : rank v using Nat.strongRecOn generalizing v with
  | _ n ih =>
    subst hn
    by_cases hl : ∃ p, T.Links v p
    · obtain ⟨p, hp⟩ := hl
      exact link v p hp (ih _ (hr v p hp) p rfl)
    · exact root v fun p hp => hl ⟨p, hp⟩

theorem Linked.root_lt (h : T.Linked) (hv : v < T.size) : T.root v < T.size := by
  induction v using h.induct with
  | root v hn => rwa [root_of_not_links hn]
  | link v p hl ih =>
    rw [h.root_of_links hl]
    exact ih (h.lt v p hl)

/-! ## Values -/

theorem value?_congr (h : T.root v = T.root w) : T.value? v = T.value? w := by
  unfold value?
  rw [h]

@[simp] theorem Linked.value?_root (h : T.Linked) (v : TyVar) :
    T.value? (T.root v) = T.value? v := value?_congr (h.root_root v)

theorem value?_of_size_le (h : T.size ≤ v) : T.value? v = none := by
  unfold value?
  rw [root_of_size_le h, Array.getElem?_eq_none h]

theorem lt_size_of_value? {t : Ty} (h : T.value? v = some t) : v < T.size := by
  refine Classical.byContradiction fun hv => ?_
  rw [value?_of_size_le (Nat.not_lt.1 hv)] at h
  cases h

end

/-! ## Tables whose links are related -/

/-- Tables with the same links have the same roots. -/
theorem Linked.of_links_iff {T T' : VarTable} (h : T.Linked) (hs : T.size ≤ T'.size)
    (hl : ∀ v p, T'.Links v p ↔ T.Links v p) :
    T'.Linked ∧ ∀ v, T'.root v = T.root v := by
  obtain ⟨rank, hr⟩ := h.falls
  have h' : T'.Linked :=
    ⟨fun v p hv => Nat.lt_of_lt_of_le (h.lt v p ((hl v p).1 hv)) hs,
      rank, fun v p hv => hr v p ((hl v p).1 hv)⟩
  refine ⟨h', fun v => ?_⟩
  induction v using h.induct with
  | root v hn => rw [root_of_not_links hn, root_of_not_links fun p hp => hn p ((hl v p).1 hp)]
  | link v p hp ih => rw [h.root_of_links hp, h'.root_of_links ((hl v p).2 hp), ih]

theorem links_hang {T : VarTable} {r s : TyVar} (n : Nat) (value : Option Ty) (hr : r < T.size)
    (hs : ∀ p, ¬ T.Links s p) (hsl : s < T.size) (hrs : r ≠ s) (v p : TyVar) :
    (T.hang r s n value).Links v p ↔ if v = r then p = s else T.Links v p := by
  have hr' : r < T.cells.size := hr
  have hs' : s < T.cells.size := hsl
  simp only [Links, hang, Array.getElem?_setIfInBounds, Array.size_setIfInBounds]
  by_cases hvs : v = s
  · subst hvs
    have hn : ¬ T.cells[v]? = some (.link p) := hs p
    simp only [hrs, Ne.symm hrs, hs', if_true, if_false, hn]
    simp
  · by_cases hvr : v = r
    · subst hvr
      simp [hr', Ne.symm hvs, eq_comm]
    · simp [hvr, Ne.symm hvs, Ne.symm hvr]

theorem linked_empty : Linked ∅ :=
  have hn : ∀ v p, ¬ Links ∅ v p := fun v p h => absurd h.lt_size (by simp)
  ⟨fun v p h => absurd h (hn v p), fun _ => 0, fun v p h => absurd h (hn v p)⟩

section
variable {T : VarTable} (h : T.Linked)
include h

/-! ## A new variable -/

theorem Linked.mint_aux : T.mint.2.Linked ∧ ∀ v, T.mint.2.root v = T.root v := by
  refine h.of_links_iff (by simp) fun v p => ?_
  simp only [Links, mint, Array.getElem?_push]
  split
  · rename_i hv
    subst hv
    simp
  · rfl

theorem Linked.mint : T.mint.2.Linked := h.mint_aux.1

theorem Linked.root_mint (v : TyVar) : T.mint.2.root v = T.root v := h.mint_aux.2 v

theorem Linked.value?_mint (v : TyVar) : T.mint.2.value? v = T.value? v := by
  unfold value?
  rw [h.root_mint]
  simp only [VarTable.mint, Array.getElem?_push]
  by_cases hv : T.root v = T.cells.size
  · simp [hv]
  · simp [hv]

/-! ## A binding -/

theorem Linked.assign_aux {v : TyVar} (t : Ty) (hv : v < T.size) :
    (T.assign v t).Linked ∧ ∀ u, (T.assign v t).root u = T.root u := by
  refine h.of_links_iff (by simp) fun u p => ?_
  have hn : ¬ T.cells[T.root v]? = some (.link p) := h.not_links_root v p
  simp only [Links, VarTable.assign, Array.getElem?_setIfInBounds]
  by_cases hu : T.root v = u
  · subst hu
    refine iff_of_false ?_ hn
    simp [show T.root v < T.cells.size from h.root_lt hv]
  · simp [hu]

theorem Linked.assign {v : TyVar} (t : Ty) (hv : v < T.size) : (T.assign v t).Linked :=
  (h.assign_aux t hv).1

theorem Linked.root_assign {v : TyVar} (t : Ty) (hv : v < T.size) (u : TyVar) :
    (T.assign v t).root u = T.root u := (h.assign_aux t hv).2 u

theorem Linked.value?_assign {v : TyVar} (t : Ty) (hv : v < T.size) (u : TyVar) :
    (T.assign v t).value? u = if T.root u = T.root v then some t else T.value? u := by
  unfold value?
  rw [h.root_assign t hv]
  simp only [VarTable.assign, Array.getElem?_setIfInBounds]
  by_cases hu : T.root u = T.root v
  · simp [hu, show T.root v < T.cells.size from h.root_lt hv]
  · simp [hu, Ne.symm hu]

/-! ## A merger -/

/-- Hanging a root under another gives the members of its class the other root. -/
theorem Linked.hang_aux {r s : TyVar} (n : Nat) (value : Option Ty) (hr : r < T.size)
    (hs : s < T.size) (hrr : T.root r = r) (hss : T.root s = s) (hrs : r ≠ s) :
    (T.hang r s n value).Linked ∧
      ∀ v, (T.hang r s n value).root v = if T.root v = r then s else T.root v := by
  have hnr : ∀ p, ¬ T.Links r p := fun p => hrr ▸ h.not_links_root r p
  have hns : ∀ p, ¬ T.Links s p := fun p => hss ▸ h.not_links_root s p
  have hl := links_hang n value hr hns hs hrs
  obtain ⟨rank, hrank⟩ := h.falls
  have h' : (T.hang r s n value).Linked := by
    refine ⟨fun v p hv => ?_, fun v => rank v + if T.root v = r then rank s + 1 else 0,
      fun v p hv => ?_⟩
    · rw [size_hang]
      rw [hl] at hv
      split at hv
      · exact hv ▸ hs
      · exact h.lt v p hv
    · rw [hl] at hv
      split at hv
      · rename_i hvr
        subst hvr; subst hv
        simp only [hrr, hss, if_true, Ne.symm hrs, if_false]
        omega
      · have := hrank v p hv
        simp only [h.root_of_links hv]
        omega
  refine ⟨h', fun v => ?_⟩
  induction v using h.induct with
  | root v hn =>
    rw [root_of_not_links hn]
    by_cases hvr : v = r
    · have hls := (hl v s).2 (by simp [hvr])
      rw [h'.root_of_links hls, if_pos hvr]
      refine root_of_not_links fun p hp => ?_
      rw [hl, if_neg (Ne.symm hrs)] at hp
      exact hns p hp
    · rw [if_neg hvr]
      refine root_of_not_links fun p hp => ?_
      rw [hl, if_neg hvr] at hp
      exact hn p hp
  | link v p hp ih =>
    have hvr : v ≠ r := fun he => hnr p (he ▸ hp)
    have hlp := (hl v p).2 (by simpa [hvr] using hp)
    rw [h'.root_of_links hlp, ih, h.root_of_links hp]

theorem Linked.hang_spec {r s : TyVar} (n : Nat) (hr : r < T.size) (hs : s < T.size)
    (hrr : T.root r = r) (hss : T.root s = s) (hrs : r ≠ s) (hvr : T.value? r = none)
    (hvs : T.value? s = none) :
    (T.hang r s n none).Linked ∧
      (∀ v, (T.hang r s n none).root v = if T.root v = r then s else T.root v) ∧
      ∀ v, (T.hang r s n none).value? v = T.value? v := by
  obtain ⟨h', hroot⟩ := h.hang_aux n none hr hs hrr hss hrs
  have hs' : s < T.cells.size := hs
  refine ⟨h', hroot, fun v => ?_⟩
  -- the class of `s` is unbound before and after; all other roots keep their cells
  have hself : (T.hang r s n none).value? s = none := by
    unfold value?
    rw [hroot, hss, if_neg (Ne.symm hrs)]
    simp [hang, hs']
  by_cases hv : T.root v = r ∨ T.root v = s
  · have hsv : (T.hang r s n none).root v = (T.hang r s n none).root s := by
      rw [hroot, hroot s, hss, if_neg (Ne.symm hrs)]
      rcases hv with hv | hv <;> simp [hv]
    rw [value?_congr hsv, hself]
    rcases hv with hv | hv
    · rw [← h.value?_root v, hv, hvr]
    · rw [← h.value?_root v, hv, hvs]
  · obtain ⟨h1, h2⟩ := not_or.1 hv
    unfold value?
    rw [hroot, if_neg h1]
    simp [hang, Ne.symm h1, Ne.symm h2]

/-- Merging two unbound classes: one of the two roots becomes the root of both. -/
theorem Linked.unite_spec {v w : TyVar} (hv : v < T.size) (hw : w < T.size)
    (hne : T.root v ≠ T.root w) (hvv : T.value? v = none) (hvw : T.value? w = none) :
    (T.unite v w).Linked ∧ (∀ u, (T.unite v w).value? u = T.value? u) ∧
      ∃ loser winner,
        (loser = T.root v ∧ winner = T.root w ∨ loser = T.root w ∧ winner = T.root v) ∧
        ∀ u, (T.unite v w).root u = if T.root u = loser then winner else T.root u := by
  have hv' := h.root_lt hv
  have hw' := h.root_lt hw
  have hvr := h.value?_root v ▸ hvv
  have hwr := h.value?_root w ▸ hvw
  unfold unite
  simp only [hne, if_false, hvv, hvw, Option.or_none]
  split
  · obtain ⟨h1, h2, h3⟩ := h.hang_spec (T.rank v) hw' hv' (h.root_root w) (h.root_root v)
      (Ne.symm hne) hwr hvr
    exact ⟨h1, h3, _, _, .inr ⟨rfl, rfl⟩, h2⟩
  · split
    · obtain ⟨h1, h2, h3⟩ := h.hang_spec (T.rank w) hv' hw' (h.root_root v) (h.root_root w) hne
        hvr hwr
      exact ⟨h1, h3, _, _, .inl ⟨rfl, rfl⟩, h2⟩
    · obtain ⟨h1, h2, h3⟩ := h.hang_spec (T.rank w + 1) hv' hw' (h.root_root v) (h.root_root w) hne
        hvr hwr
      exact ⟨h1, h3, _, _, .inl ⟨rfl, rfl⟩, h2⟩

end

/-! ## Depth -/

/-- No type that a variable is bound to is higher than `n`. -/
def Low (T : VarTable) (n : Nat) : Prop := ∀ v t, T.value? v = some t → t.height ≤ n

theorem le_foldl_max {ns : List Nat} {n : Nat} (h : n ∈ ns) : ∀ m, n ≤ ns.foldl max m := by
  have hle : ∀ (ns : List Nat) (m : Nat), m ≤ ns.foldl max m := fun ns => by
    induction ns with
    | nil => exact Nat.le_refl
    | cons k ns ih => exact fun m => Nat.le_trans (Nat.le_max_left m k) (ih _)
  induction ns with
  | nil => cases h
  | cons k ns ih =>
    intro m
    rcases List.mem_cons.1 h with rfl | h
    · exact Nat.le_trans (Nat.le_max_right m n) (hle ns _)
    · exact ih h _

theorem depthBound_eq (T : VarTable) (types : List Ty) :
    ∃ values, (∀ v t, T.value? v = some t → t ∈ values) ∧ T.depthBound types =
      (T.size + 1) * (((types ++ values).map Ty.height).foldl max 0 + 1) + 1 := by
  refine ⟨_, fun v t hv => ?_, rfl⟩
  unfold value? at hv
  split at hv
  · rename_i hc
    subst hv
    obtain ⟨hlt, hc⟩ := Array.getElem?_eq_some_iff.1 hc
    exact List.mem_filterMap.2 ⟨_, Array.getElem_mem_toList hlt, by rw [hc]⟩
  · cases hv

/-- The depth granted covers the given types with a detour through every variable. -/
theorem lt_depthBound (T : VarTable) (types : List Ty) :
    ∃ n, T.Low n ∧ (∀ t ∈ types, t.height ≤ n) ∧ n + T.size * n < T.depthBound types := by
  obtain ⟨values, hv, hd⟩ := T.depthBound_eq types
  refine ⟨((types ++ values).map Ty.height).foldl max 0, fun v t ht => ?_, fun t ht => ?_, ?_⟩
  · exact le_foldl_max (List.mem_map_of_mem (List.mem_append_right _ (hv v t ht))) 0
  · exact le_foldl_max (List.mem_map_of_mem (List.mem_append_left _ ht)) 0
  · rw [hd, Nat.add_comm, ← Nat.succ_mul]
    exact Nat.lt_succ_of_le (Nat.mul_le_mul_left _ (Nat.le_succ _))

end TypeInference.VarTable
