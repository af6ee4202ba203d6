import TypeInference.Proofs.VarTable.Growth

/-!
# Tables that differ in their roots

Which member of a class is its root depends on the order in which the class was put together.
`Twins T U`: the two tables have the same classes, and bind the same ones to types that differ only
in which members of a class they mention (`Alike`). Whatever is read off twins differs no further:
leaders (`Twins.leader`), resolved types (`Twins.rooted_resolve`) and occurrence (`Twins.occurs`).
Twins stay twins when both tables merge or both bind a class (`Twins.unite`, `Twins.assign`).
-/

namespace TypeInference.VarTable

/-- The type with each variable replaced by the root of its class. -/
def rooted (T : VarTable) (t : Ty) : Ty := t.bind fun v => .var (T.root v)

/-- The types differ only in which members of a class they mention. -/
def Alike (T : VarTable) (s t : Ty) : Prop := T.rooted s = T.rooted t

/-- The tables have the same classes, bound alike. -/
structure Twins (T U : VarTable) : Prop where
  size : U.size = T.size
  root_iff : ∀ v w, U.root v = U.root w ↔ T.root v = T.root w
  value : ∀ v, (U.value? v).map T.rooted = (T.value? v).map T.rooted

section
variable {T T' U : VarTable} {s t : Ty} {v w : TyVar}

/-! ## Roots for variables -/

theorem rooted_bind (t : Ty) (f : TyVar → Ty) :
    T.rooted (t.bind f) = t.bind fun v => T.rooted (f v) :=
  Ty.bind_bind t f _

theorem rooted_rooted_of (hr : ∀ v, T'.root (T.root v) = T'.root v) (t : Ty) :
    T'.rooted (T.rooted t) = T'.rooted t := by
  rw [rooted.eq_def T, rooted_bind]
  exact Ty.bind_congr fun v _ => congrArg Ty.var (hr v)

/-- Types that are alike stay so when classes merge. -/
theorem Alike.mono (h : T.Alike s t) (hr : ∀ v, T'.root (T.root v) = T'.root v) : T'.Alike s t := by
  rw [Alike, ← rooted_rooted_of hr s, h, rooted_rooted_of hr]

theorem Alike.refl (T : VarTable) (t : Ty) : T.Alike t t := rfl

theorem Alike.symm (h : T.Alike s t) : T.Alike t s := Eq.symm h

/-- A replacement that treats the members of a class alike treats types that are alike alike. -/
theorem Alike.bind_eq (h : T.Alike s t) {f : TyVar → Ty} (hf : ∀ v, f (T.root v) = f v) :
    s.bind f = t.bind f := by
  have hroot : ∀ r : Ty, (T.rooted r).bind f = r.bind f := fun r =>
    (Ty.bind_bind r _ f).trans (Ty.bind_congr fun v _ => hf v)
  rw [← hroot s, h, hroot]

theorem Alike.var (h : T.root v = T.root w) : T.Alike (.var v) (.var w) :=
  congrArg Ty.var h

/-- Only a variable is alike to a variable, and then they share a class. -/
theorem Alike.of_var (h : T.Alike (.var v) t) : ∃ w, t = .var w ∧ T.root v = T.root w := by
  cases t with
  | var w => exact ⟨w, rfl, Ty.var.inj h⟩
  | _ => cases h

theorem Alike.mem_occurrences (h : T.Alike s t) (hv : v ∈ s.occurrences) :
    ∃ w ∈ t.occurrences, T.root v = T.root w := by
  have hroot : T.root v ∈ (T.rooted s).occurrences :=
    Ty.mem_occurrences_bind.2 ⟨v, hv, List.mem_singleton.2 rfl⟩
  rw [h] at hroot
  obtain ⟨w, hw, hvw⟩ := Ty.mem_occurrences_bind.1 hroot
  exact ⟨w, hw, List.mem_singleton.1 hvw⟩

theorem Linked.root_lt_iff (h : T.Linked) : T.root v < T.size ↔ v < T.size := by
  refine ⟨fun hr => ?_, h.root_lt⟩
  by_contra hv
  rw [root_of_size_le (Nat.le_of_not_lt hv)] at hr
  exact hv hr

theorem Linked.lt_of_root_eq (h : T.Linked) (hr : T.root v = T.root w) (hv : v < T.size) :
    w < T.size := by
  rwa [← h.root_lt_iff, ← hr, h.root_lt_iff]

theorem Alike.minted (ha : T.Alike s t) (h : T.Linked) (hs : T.Minted s) : T.Minted t := by
  intro w hw
  obtain ⟨v, hv, hr⟩ := ha.symm.mem_occurrences hw
  exact h.lt_of_root_eq hr.symm (hs v hv)

theorem Wf.resolve_alike (h : T.Wf) (ha : T.Alike s t) : T.resolve s = T.resolve t := by
  rw [resolve_eq_bind, resolve_eq_bind t]
  exact ha.bind_eq h.resolve_root

/-- A resolved type mentions roots only. -/
theorem Wf.rooted_resolve (h : T.Wf) (t : Ty) : T.rooted (T.resolve t) = T.resolve t :=
  (Ty.bind_congr fun _ hv => congrArg Ty.var (h.of_mem_resolve hv).1).trans (Ty.bind_var _)

/-- A merger puts two classes together and leaves the others apart. -/
theorem Wf.root_unite_eq_iff (h : T.Wf) (hv : v < T.size) (hw : w < T.size)
    (hne : T.root v ≠ T.root w) (hvv : T.value? v = none) (hvw : T.value? w = none)
    (x y : TyVar) : (T.unite v w).root x = (T.unite v w).root y ↔
      T.root x = T.root y ∨ (T.root x = T.root v ∧ T.root y = T.root w) ∨
        (T.root x = T.root w ∧ T.root y = T.root v) := by
  obtain ⟨-, -, loser, winner, hlw, hroot⟩ := h.unite_spec hv hw hne hvv hvw
  rw [hroot, hroot]
  rcases hlw with ⟨rfl, rfl⟩ | ⟨rfl, rfl⟩ <;> split <;> split <;> grind

end

/-! ## Twins -/

namespace Twins

variable {T U : VarTable} {s t : Ty} {v w : TyVar}

theorem refl (T : VarTable) : Twins T T := ⟨rfl, fun _ _ => .rfl, fun _ => rfl⟩

theorem root_root (h : Twins T U) (hU : U.Linked) (v : TyVar) : T.root (U.root v) = T.root v :=
  (h.root_iff _ _).1 (hU.root_root v)

theorem root_root' (h : Twins T U) (hT : T.Linked) (v : TyVar) : U.root (T.root v) = U.root v :=
  (h.root_iff _ _).2 (hT.root_root v)

theorem alike_iff (h : Twins T U) (hT : T.Linked) (hU : U.Linked) : U.Alike s t ↔ T.Alike s t :=
  ⟨fun ha => ha.mono (h.root_root hU), fun ha => ha.mono (h.root_root' hT)⟩

theorem value_none (h : Twins T U) : U.value? v = none ↔ T.value? v = none := by
  rw [← Option.map_eq_none_iff (f := T.rooted), h.value, Option.map_eq_none_iff]

theorem alike_of_value (h : Twins T U) (hs : T.value? v = some s) :
    ∃ s', U.value? v = some s' ∧ T.Alike s' s := by
  have hv := h.value v
  rw [hs, Option.map_some, Option.map_eq_some_iff] at hv
  exact hv

theorem symm (h : Twins T U) (hT : T.Linked) (hU : U.Linked) : Twins U T where
  size := h.size.symm
  root_iff v w := (h.root_iff v w).symm
  value v := by
    cases hv : T.value? v with
    | none => rw [h.value_none.2 hv]
    | some s =>
      obtain ⟨s', hs', ha⟩ := h.alike_of_value hv
      rw [hs']
      exact congrArg some ((h.alike_iff hT hU).2 ha.symm)

/-- Leaders of types that are alike are alike. -/
theorem leader (h : Twins T U) (hT : T.Wf) (hU : U.Wf) (ha : T.Alike s t) :
    T.Alike (T.leader s) (U.leader t) := by
  cases s with
  | var v =>
    obtain ⟨w, rfl, hr⟩ := ha.of_var
    rw [hT.leader_var, hU.leader_var]
    have hvw : T.value? v = T.value? w := value?_congr hr
    cases hw : T.value? w with
    | none =>
      rw [hvw, hw, h.value_none.2 hw]
      exact .var (by rw [hT.root_root, h.root_root hU.toLinked, hr])
    | some s =>
      obtain ⟨s', hs', ha'⟩ := h.alike_of_value hw
      rw [hvw, hw, hs']
      exact ha'.symm
  | _ =>
    cases t with
    | var w =>
      obtain ⟨v, hv, -⟩ := ha.symm.of_var
      cases hv
    | _ => exact ha

theorem rooted_resolve_var (h : Twins T U) (hT : T.Wf) (hU : U.Wf) (v : TyVar) :
    T.rooted (U.resolve (.var v)) = T.resolve (.var v) := by
  induction v using hT.induct with
  | step v ih =>
    cases hv : T.value? v with
    | none =>
      rw [hT.resolve_unbound hv, hU.resolve_unbound (h.value_none.2 hv)]
      exact congrArg Ty.var (h.root_root hU.toLinked v)
    | some s =>
      obtain ⟨s', hs', ha⟩ := h.alike_of_value hv
      rw [hT.resolve_bound hv, hU.resolve_bound hs', resolve_eq_bind, rooted_bind,
        resolve_eq_bind s]
      -- the members of a class resolve alike in `U`, so `s` may stand for `s'`
      rw [ha.bind_eq fun w => congrArg T.rooted (hU.resolve_congr (h.root_root' hT.toLinked w))]
      exact Ty.bind_congr fun w hw => ih s hv w hw

/-- Twins resolve a type alike. -/
theorem rooted_resolve (h : Twins T U) (hT : T.Wf) (hU : U.Wf) (t : Ty) :
    T.rooted (U.resolve t) = T.resolve t := by
  rw [resolve_eq_bind, rooted_bind, resolve_eq_bind t]
  exact Ty.bind_congr fun v _ => h.rooted_resolve_var hT hU v

theorem alike_resolve (h : Twins T U) (hT : T.Wf) (hU : U.Wf) (ha : T.Alike s t) :
    T.Alike (T.resolve s) (U.resolve t) := by
  rw [Alike, h.rooted_resolve hT hU, hT.rooted_resolve, hT.resolve_alike ha]

/-- An unbound class occurs in a type for both twins or for neither. -/
theorem occurs (h : Twins T U) (hT : T.Wf) (hU : U.Wf) (hv : T.value? v = none)
    (hr : T.root v = T.root w) (ha : T.Alike s t) : U.occurs w t = T.occurs v s := by
  have hw : U.value? w = none := h.value_none.2 (value?_congr hr ▸ hv)
  rw [Bool.eq_iff_iff, hU.occurs_iff hw, hT.occurs_iff hv]
  have hres := h.alike_resolve hT hU ha
  constructor
  · intro hm
    obtain ⟨u, hu, hwu⟩ := hres.symm.mem_occurrences hm
    rw [h.root_root hU.toLinked, ← hr, (hT.of_mem_resolve hu).1] at hwu
    rwa [hwu]
  · intro hm
    obtain ⟨u, hu, hvu⟩ := hres.mem_occurrences hm
    rw [hT.root_root, hr] at hvu
    rwa [(h.root_iff w u).2 hvu, (hU.of_mem_resolve hu).1]

/-! ### The same change to both -/

theorem value_mono (h : Twins T U) {T' : VarTable} (hr : ∀ v, T'.root (T.root v) = T'.root v)
    (v : TyVar) : (U.value? v).map T'.rooted = (T.value? v).map T'.rooted := by
  have hv := congrArg (Option.map T'.rooted) (h.value v)
  simpa only [Option.map_map, Function.comp_def, rooted_rooted_of hr] using hv

theorem unite (h : Twins T U) (hT : T.Wf) (hU : U.Wf) {v' w' : TyVar} (hv : v < T.size)
    (hw : w < T.size) (hne : T.root v ≠ T.root w) (hvv : T.value? v = none)
    (hvw : T.value? w = none) (hv' : T.root v' = T.root v) (hw' : T.root w' = T.root w) :
    Twins (T.unite v w) (U.unite w' v') := by
  have hltv : v' < U.size := h.size ▸ hT.lt_of_root_eq hv'.symm hv
  have hltw : w' < U.size := h.size ▸ hT.lt_of_root_eq hw'.symm hw
  have hne' : U.root w' ≠ U.root v' := fun he =>
    hne (by rw [← hv', ← hw', (h.root_iff w' v').1 he])
  have hvv' : U.value? v' = none := h.value_none.2 (value?_congr hv' ▸ hvv)
  have hvw' : U.value? w' = none := h.value_none.2 (value?_congr hw' ▸ hvw)
  obtain ⟨-, hval, -⟩ := hT.unite_spec hv hw hne hvv hvw
  obtain ⟨-, hval', -⟩ := hU.unite_spec hltw hltv hne' hvw' hvv'
  refine ⟨by simp [h.size], fun x y => ?_, fun u => ?_⟩
  · rw [hU.root_unite_eq_iff hltw hltv hne' hvw' hvv', hT.root_unite_eq_iff hv hw hne hvv hvw,
      h.root_iff, h.root_iff, h.root_iff, h.root_iff, h.root_iff, hv', hw']
    exact or_congr_right or_comm
  · rw [hval, hval']
    exact h.value_mono (hT.unite hv hw hne hvv hvw).2.1.root_root u

theorem assign (h : Twins T U) (hT : T.Wf) (hU : U.Wf) (hv : v < T.size)
    (hr : T.root w = T.root v) (ha : T.Alike s t) : Twins (T.assign v s) (U.assign w t) := by
  have hw : w < U.size := h.size ▸ hT.lt_of_root_eq hr.symm hv
  have hroot : (T.assign v s).rooted = T.rooted := by
    funext r
    exact Ty.bind_congr fun u _ => congrArg Ty.var (hT.root_assign s hv u)
  refine ⟨by simp [h.size], fun x y => ?_, fun u => ?_⟩
  · rw [hU.root_assign t hw, hU.root_assign t hw, hT.root_assign s hv, hT.root_assign s hv]
    exact h.root_iff x y
  · rw [hroot, hU.value?_assign t hw, hT.value?_assign s hv]
    simp only [h.root_iff, hr]
    split
    · exact congrArg some ha.symm
    · exact h.value u

end Twins

end TypeInference.VarTable
