import TypeInference.Proofs.Ty.Parts
import TypeInference.Proofs.Ty.Same

/-!
# Where equality is not transitive

Two layouts that carry names are compared by name, a name stands for every layout declared under it,
and a layout without a name is compared by its fields alone. So a type may be the same as two others
that are not the same as each other. `Seam t u w` lists the places at which `u` does so between `t`
and `w`, and elsewhere `Same` is transitive: two types that are the same as a third are the same
exactly if no seam runs between them (`Same.trans_iff`).

`Declared D t`: every layout inside `t` is the one that `D` declares under its name. Between such
types no seam runs (`Declared.not_seam`).
-/

namespace TypeInference.Ty

/-- A place at which `u` may be the same as `t` and as `w`, but `t` is not the same as `w`. -/
inductive Seam : Ty → Ty → Ty → Prop
  /-- A name between two layouts declared under it that differ. -/
  | name {n : String} {fs gs : List (String × Ty)} :
      ¬ Same (.struct (some n) fs) (.struct (some n) gs) →
      Seam (.struct (some n) fs) (.con n) (.struct (some n) gs)
  /-- A layout between the name it is declared under and one that has no name. -/
  | nameless (n : String) (fs gs : List (String × Ty)) :
      Seam (.con n) (.struct (some n) fs) (.struct none gs)
  | nameless' (n : String) (fs gs : List (String × Ty)) :
      Seam (.struct none gs) (.struct (some n) fs) (.con n)
  /-- A layout without a name between two that carry different ones. -/
  | names {m n : String} (fs gs hs : List (String × Ty)) : m ≠ n →
      Seam (.struct (some m) fs) (.struct none gs) (.struct (some n) hs)
  | part {t u w p q r : Ty} (i : Nat) : t.parts[i]? = some p → u.parts[i]? = some q →
      w.parts[i]? = some r → Seam p q r → Seam t u w

variable {t u w : Ty}

namespace Same

/-- Parts in the same place are the same. -/
theorem part (h : Same t u) {i : Nat} {p q : Ty} (hp : t.parts[i]? = some p)
    (hq : u.parts[i]? = some q) : Same p q := by
  have hm : (p, q) ∈ t.parts.zip u.parts :=
    List.mem_of_getElem? (List.getElem?_zip_eq_some.2 ⟨hp, hq⟩)
  cases h with
  | refl t => exact of_mem_zip_self hm
  | ptr h =>
    cases List.mem_singleton.1 hm
    exact h
  | fn hl hps hr =>
    rw [parts, parts, List.zip_append hl] at hm
    rcases List.mem_append.1 hm with hm | hm
    · exact hps _ hm
    · cases List.mem_singleton.1 hm
      exact hr
  | struct _ _ hf => exact hf _ hm
  | name n fs => simp [parts] at hp
  | declared n fs => simp [parts] at hq

end Same

theorem Seam.not_same (hs : Seam t u w) (h : Same t u) (h' : Same u w) : ¬ Same t w := by
  induction hs with
  | name hne => exact hne
  | nameless n fs gs => exact fun hw => Option.some_ne_none n (Same.con_struct.1 hw).symm
  | nameless' n fs gs => exact fun hw => Option.some_ne_none n (Same.struct_con.1 hw).symm
  | names fs gs hs hne => exact fun hw => hne ((Same.struct_struct.1 hw).1 _ _ rfl rfl)
  | part i hp hq hr _ ih => exact fun hw => ih (h.part hp hq) (h'.part hq hr) (hw.part hp hr)

theorem getElem?_parts_fn {ps : List Ty} {p : Ty} {i : Nat} (r : Ty) (hp : ps[i]? = some p) :
    (Ty.fn ps r).parts[i]? = some p := by
  simp only [parts]
  rwa [List.getElem?_append_left (List.getElem?_eq_some_iff.1 hp).1]

/-- Lists of types, each the same as the one between them, with no seam in any place. -/
theorem same_of_zip {xs ys zs : List Ty} (hl : xs.length = ys.length)
    (hxy : ∀ p ∈ xs.zip ys, ∀ z, Same p.2 z → ¬ Seam p.1 p.2 z → Same p.1 z)
    (hyz : ∀ p ∈ ys.zip zs, Same p.1 p.2)
    (hs : ∀ (i : Nat) (x y z : Ty),
      xs[i]? = some x → ys[i]? = some y → zs[i]? = some z → ¬ Seam x y z) :
    ∀ p ∈ xs.zip zs, Same p.1 p.2 := by
  intro p hp
  obtain ⟨i, hi⟩ := List.getElem?_of_mem hp
  obtain ⟨hx, hz⟩ := List.getElem?_zip_eq_some.1 hi
  obtain ⟨y, hy⟩ : ∃ y, ys[i]? = some y := by
    have := (List.getElem?_eq_some_iff.1 hx).1
    exact ⟨ys[i], List.getElem?_eq_getElem _⟩
  have hmxy : (p.1, y) ∈ xs.zip ys :=
    List.mem_of_getElem? (List.getElem?_zip_eq_some.2 ⟨hx, hy⟩)
  have hmyz : (y, p.2) ∈ ys.zip zs :=
    List.mem_of_getElem? (List.getElem?_zip_eq_some.2 ⟨hy, hz⟩)
  exact hxy _ hmxy _ (hyz _ hmyz) (hs i _ _ _ hx hy hz)

theorem Same.trans_of_not_seam (h : Same t u) (h' : Same u w) (hs : ¬ Seam t u w) : Same t w := by
  induction h generalizing w with
  | refl t => exact h'
  | ptr _ ih =>
    cases w with
    | ptr w => exact .ptr (ih (ptr_ptr.1 h') fun hp => hs (.part 0 rfl rfl rfl hp))
    | _ => cases h'
  | @fn ps qs r s hl _ _ ihp ihr =>
    cases w with
    | fn ws z =>
      obtain ⟨hl', hp', hr'⟩ := fn_fn.1 h'
      refine .fn (hl.trans hl') (same_of_zip hl (fun p hp z => ihp p hp) hp' ?_) (ihr hr' ?_)
      · intro i x y z hx hy hz hp
        exact hs (.part i (getElem?_parts_fn _ hx) (getElem?_parts_fn _ hy)
          (getElem?_parts_fn _ hz) hp)
      · intro hp
        refine hs (.part ps.length ?_ ?_ ?_ hp)
        · simp [parts]
        · simp [parts, hl]
        · simp [parts, hl, hl']
    | _ => cases h'
  | @struct m n fs gs hn hf _ ih =>
    cases w with
    | con c =>
      obtain rfl := struct_con.1 h'
      cases m with
      | none => exact absurd (.nameless' c gs fs) hs
      | some m => exact hn m c rfl rfl ▸ .declared m fs
    | struct k hs' =>
      obtain ⟨hn', hf', hp'⟩ := struct_struct.1 h'
      refine .struct ?_ (hf.trans hf') (same_of_zip ?_ (fun p hp z => ih p hp) hp' ?_)
      · rintro x y rfl rfl
        cases n with
        | some n => exact (hn x n rfl rfl).trans (hn' n y rfl rfl)
        | none => exact Classical.byContradiction fun hne => hs (.names fs gs hs' hne)
      · simpa using congrArg List.length hf
      · exact fun i x y z hx hy hz hp => hs (.part i hx hy hz hp)
    | _ => cases h'
  | name n fs =>
    cases w with
    | con c => exact con_con.2 (Option.some.inj (struct_con.1 h'))
    | struct k gs =>
      cases k with
      | none => exact absurd (.nameless n fs gs) hs
      | some k => exact (struct_struct.1 h').1 n k rfl rfl ▸ .name n gs
    | _ => cases h'
  | declared n fs =>
    cases w with
    | con c => exact con_con.1 h' ▸ .declared n fs
    | struct k gs =>
      obtain rfl := con_struct.1 h'
      exact Classical.byContradiction fun hne => hs (.name hne)
    | _ => cases h'

/-- Two types that are the same as a third are the same unless a seam runs between them. -/
theorem Same.trans_iff (h : Same t u) (h' : Same u w) : Same t w ↔ ¬ Seam t u w :=
  ⟨fun hw hs => hs.not_same h h' hw, h.trans_of_not_seam h'⟩

/-! ## Declared layouts -/

/-- Every layout inside the type is the one that is declared under its name. -/
inductive Declared (D : String → List (String × Ty)) : Ty → Prop
  | var (v : TyVar) : Declared D (.var v)
  | con (n : String) : Declared D (.con n)
  | ptr {t : Ty} : Declared D t → Declared D (.ptr t)
  | fn {ps : List Ty} {r : Ty} : (∀ p ∈ ps, Declared D p) → Declared D r → Declared D (.fn ps r)
  | struct {n : String} {fs : List (String × Ty)} : fs = D n → (∀ f ∈ fs, Declared D f.2) →
      Declared D (.struct (some n) fs)

variable {D : String → List (String × Ty)}

theorem Declared.of_mem_parts {s : Ty} (h : Declared D t) (hs : s ∈ t.parts) : Declared D s := by
  cases h with
  | var v => simp [parts] at hs
  | con n => simp [parts] at hs
  | ptr h => obtain rfl := List.mem_singleton.1 hs; exact h
  | fn hp hr =>
    rcases List.mem_append.1 hs with hs | hs
    · exact hp s hs
    · obtain rfl := List.mem_singleton.1 hs; exact hr
  | struct _ hf =>
    obtain ⟨f, hf', rfl⟩ := List.mem_map.1 hs
    exact hf f hf'

/-- Where each name has one layout and each layout a name, equality is transitive. -/
theorem Declared.not_seam (ht : Declared D t) (hu : Declared D u) (hw : Declared D w) :
    ¬ Seam t u w := by
  intro hs
  induction hs with
  | name hne =>
    cases ht with
    | struct hf =>
      cases hw with
      | struct hg => exact hne (hf ▸ hg ▸ .refl _)
  | nameless n fs gs => cases hw
  | nameless' n fs gs => cases ht
  | names fs gs hs hne => cases hu
  | part i hp hq hr _ ih =>
    exact ih (ht.of_mem_parts (List.mem_of_getElem? hp)) (hu.of_mem_parts (List.mem_of_getElem? hq))
      (hw.of_mem_parts (List.mem_of_getElem? hr))

end TypeInference.Ty
