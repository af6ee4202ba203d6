import Mathlib.Data.List.Zip
import TypeInference.Ty.Lemmas

/-!
# Types that denote the same type

`Same s t`: the types are equal, except that a constructor may stand for a struct declared under its
name, and that of two layouts with the same fields one may lack the name the other has. This is the
equality that unification establishes. It is no equivalence (a name stands for every layout declared
under it), but it is symmetric (`Same.symm`) and closed under replacement (`Same.bind`).
-/

namespace TypeInference.Ty

/-- The least relation that is reflexive, is a congruence for pointers, for functions of equal arity
and for layouts of the same field names that do not carry two different names, and relates a name
to every layout declared under it. -/
inductive Same : Ty → Ty → Prop
  | refl (t : Ty) : Same t t
  | ptr {s t : Ty} : Same s t → Same (.ptr s) (.ptr t)
  | fn {ps qs : List Ty} {r s : Ty} : ps.length = qs.length → (∀ p ∈ ps.zip qs, Same p.1 p.2) →
      Same r s → Same (.fn ps r) (.fn qs s)
  | struct {m n : Option String} {fs gs : List (String × Ty)} :
      (∀ x y, m = some x → n = some y → x = y) → fs.map Prod.fst = gs.map Prod.fst →
      (∀ p ∈ (fs.map Prod.snd).zip (gs.map Prod.snd), Same p.1 p.2) →
      Same (.struct m fs) (.struct n gs)
  | name (n : String) (fs : List (String × Ty)) : Same (.con n) (.struct (some n) fs)
  | declared (n : String) (fs : List (String × Ty)) : Same (.struct (some n) fs) (.con n)

theorem map_snd_fields (f : TyVar → Ty) (fs : List (String × Ty)) :
    (fs.map fun p => (p.1, p.2.bind f)).map Prod.snd = (fs.map Prod.snd).map (bind f) := by
  simp

namespace Same

theorem symm {s t : Ty} (h : Same s t) : Same t s := by
  induction h with
  | refl t => exact .refl t
  | ptr _ ih => exact .ptr ih
  | fn hl _ _ ihp ihr =>
    refine .fn hl.symm (fun p hp => ihp p.swap ?_) ihr
    rw [← List.zip_swap]
    exact List.mem_map_of_mem hp
  | struct hn hf _ ih =>
    refine .struct (fun x y hx hy => (hn y x hy hx).symm) hf.symm fun p hp => ih p.swap ?_
    rw [← List.zip_swap]
    exact List.mem_map_of_mem hp
  | name n fs => exact .declared n fs
  | declared n fs => exact .name n fs

/-- Replacing the variables of two types alike keeps them the same. -/
theorem bind {s t : Ty} (h : Same s t) (f : TyVar → Ty) : Same (s.bind f) (t.bind f) := by
  induction h with
  | refl t => exact .refl _
  | ptr _ ih => exact .ptr ih
  | fn hl _ _ ihp ihr =>
    simp only [Ty.bind, bindAll_eq_map]
    refine .fn (by simpa using hl) (fun p hp => ?_) ihr
    rw [List.zip_map] at hp
    obtain ⟨q, hq, rfl⟩ := List.mem_map.1 hp
    exact ihp q hq
  | struct hn hf _ ih =>
    simp only [Ty.bind, bindFields_eq_map]
    refine .struct hn (by simpa [Function.comp_def] using hf) fun p hp => ?_
    rw [map_snd_fields, map_snd_fields, List.zip_map] at hp
    obtain ⟨q, hq, rfl⟩ := List.mem_map.1 hp
    exact ih q hq
  | name n fs => exact .name n _
  | declared n fs => exact .declared n _

/-! ## Outermost forms -/

theorem of_mem_zip_self {ts : List Ty} {p : Ty × Ty} (h : p ∈ ts.zip ts) : Same p.1 p.2 := by
  have hz : ts.zip ts = ts.map fun t => (t, t) := by
    simpa using List.zip_map' (f := id) (g := id) (l := ts)
  rw [hz] at h
  obtain ⟨t, -, rfl⟩ := List.mem_map.1 h
  exact .refl t

theorem eq_var_left {v : TyVar} {t : Ty} (h : Same (.var v) t) : t = .var v := by
  cases h
  rfl

theorem con_con {m n : String} : Same (.con m) (.con n) ↔ m = n :=
  ⟨fun h => by cases h; rfl, fun h => h ▸ .refl _⟩

theorem con_struct {c : String} {n : Option String} {fs : List (String × Ty)} :
    Same (.con c) (.struct n fs) ↔ n = some c :=
  ⟨fun h => by cases h; rfl, fun h => h ▸ .name c fs⟩

theorem struct_con {c : String} {n : Option String} {fs : List (String × Ty)} :
    Same (.struct n fs) (.con c) ↔ n = some c :=
  ⟨fun h => con_struct.1 h.symm, fun h => h ▸ .declared c fs⟩

theorem ptr_ptr {s t : Ty} : Same (.ptr s) (.ptr t) ↔ Same s t := by
  refine ⟨fun h => ?_, .ptr⟩
  cases h with
  | refl => exact .refl s
  | ptr h => exact h

theorem fn_fn {ps qs : List Ty} {r s : Ty} : Same (.fn ps r) (.fn qs s) ↔
    ps.length = qs.length ∧ (∀ p ∈ ps.zip qs, Same p.1 p.2) ∧ Same r s := by
  refine ⟨fun h => ?_, fun ⟨hl, hp, hr⟩ => .fn hl hp hr⟩
  cases h with
  | refl => exact ⟨rfl, fun p => of_mem_zip_self, .refl r⟩
  | fn hl hp hr => exact ⟨hl, hp, hr⟩

theorem struct_struct {m n : Option String} {fs gs : List (String × Ty)} :
    Same (.struct m fs) (.struct n gs) ↔ (∀ x y, m = some x → n = some y → x = y) ∧
      fs.map Prod.fst = gs.map Prod.fst ∧
        ∀ p ∈ (fs.map Prod.snd).zip (gs.map Prod.snd), Same p.1 p.2 := by
  refine ⟨fun h => ?_, fun ⟨hn, hf, hp⟩ => .struct hn hf hp⟩
  cases h with
  | refl =>
    exact ⟨fun x y hx hy => Option.some.inj (hx ▸ hy), rfl, fun p => of_mem_zip_self⟩
  | struct hn hf hp => exact ⟨hn, hf, hp⟩

end Same

end TypeInference.Ty
