import TypeInference.Ty.Basic

/-!
# Variables of a type and their replacement

`bindAll` and `bindFields` are maps, the listings are flat maps, and `bind` obeys the laws of
substitution: `bind_var`, `bind_bind`, `bind_congr` (only the variables that occur matter) and
`mem_occurrences_bind` (where the variables of an image come from).
-/

namespace TypeInference.Ty

/-! ## Lists of parameters and fields -/

theorem bindAll_eq_map (f : TyVar → Ty) (ts : List Ty) : bindAll f ts = ts.map (bind f) := by
  induction ts with
  | nil => rfl
  | cons t ts ih => simp [bindAll, ih]

theorem bindFields_eq_map (f : TyVar → Ty) (fs : List (String × Ty)) :
    bindFields f fs = fs.map fun p => (p.1, bind f p.2) := by
  induction fs with
  | nil => rfl
  | cons p fs ih => simp [bindFields, ih]

theorem occurrencesAll_eq_flatMap (ts : List Ty) : occurrencesAll ts = ts.flatMap occurrences := by
  induction ts with
  | nil => rfl
  | cons t ts ih => simp [occurrencesAll, ih]

theorem occurrencesFields_eq_flatMap (fs : List (String × Ty)) :
    occurrencesFields fs = fs.flatMap fun p => occurrences p.2 := by
  induction fs with
  | nil => rfl
  | cons p fs ih => simp [occurrencesFields, ih]

theorem mem_vars {t : Ty} {v : TyVar} : v ∈ t.vars ↔ v ∈ t.occurrences := by
  simp [vars, List.mem_eraseDups]

/-! ## Laws of replacement -/

theorem bind_var (t : Ty) : t.bind .var = t := by
  induction t with
  | var v => rfl
  | con n => rfl
  | ptr t ih => simp [bind, ih]
  | fn ps r ihp ihr =>
    simp only [bind, bindAll_eq_map, ihr, Ty.fn.injEq, and_true]
    exact (List.map_congr_left ihp).trans (List.map_id' ps)
  | struct n fs ih =>
    simp only [bind, bindFields_eq_map, Ty.struct.injEq, true_and]
    exact (List.map_congr_left fun p hp => by rw [ih p hp]).trans (List.map_id' fs)

theorem bind_congr {t : Ty} {f g : TyVar → Ty} (h : ∀ v ∈ t.occurrences, f v = g v) :
    t.bind f = t.bind g := by
  induction t with
  | var v => exact h v (by simp [occurrences])
  | con n => rfl
  | ptr t ih => simp only [bind]; rw [ih h]
  | fn ps r ihp ihr =>
    simp only [occurrences, occurrencesAll_eq_flatMap, List.mem_append, List.mem_flatMap] at h
    simp only [bind, bindAll_eq_map]
    rw [ihr fun v hv => h v (.inr hv),
      List.map_congr_left fun p hp => ihp p hp fun v hv => h v (.inl ⟨p, hp, hv⟩)]
  | struct n fs ih =>
    simp only [occurrences, occurrencesFields_eq_flatMap, List.mem_flatMap] at h
    simp only [bind, bindFields_eq_map]
    rw [List.map_congr_left fun p hp => by rw [ih p hp fun v hv => h v ⟨p, hp, hv⟩]]

theorem bind_bind (t : Ty) (f g : TyVar → Ty) :
    (t.bind f).bind g = t.bind fun v => (f v).bind g := by
  induction t with
  | var v => rfl
  | con n => rfl
  | ptr t ih => simp [bind, ih]
  | fn ps r ihp ihr => simpa [bind, bindAll_eq_map, ihr] using ihp
  | struct n fs ih =>
    simp only [bind, bindFields_eq_map, List.map_map, Ty.struct.injEq, true_and]
    exact List.map_congr_left fun p hp => by simp [ih p hp]

/-- The variables of an image are those of the types put in. -/
theorem mem_occurrences_bind {t : Ty} {f : TyVar → Ty} {w : TyVar} :
    w ∈ (t.bind f).occurrences ↔ ∃ v ∈ t.occurrences, w ∈ (f v).occurrences := by
  induction t with
  | var v => simp [bind, occurrences]
  | con n => simp [bind, occurrences]
  | ptr t ih => simpa [bind, occurrences] using ih
  | fn ps r ihp ihr =>
    simp only [bind, occurrences, bindAll_eq_map, occurrencesAll_eq_flatMap, List.mem_append,
      List.mem_flatMap, List.mem_map, ihr]
    constructor
    · rintro (⟨_, ⟨p, hp, rfl⟩, hw⟩ | ⟨v, hv, hw⟩)
      · obtain ⟨v, hv, hw⟩ := (ihp p hp).1 hw
        exact ⟨v, .inl ⟨p, hp, hv⟩, hw⟩
      · exact ⟨v, .inr hv, hw⟩
    · rintro ⟨v, ⟨p, hp, hv⟩ | hv, hw⟩
      · exact .inl ⟨_, ⟨p, hp, rfl⟩, (ihp p hp).2 ⟨v, hv, hw⟩⟩
      · exact .inr ⟨v, hv, hw⟩
  | struct n fs ih =>
    simp only [bind, occurrences, bindFields_eq_map, occurrencesFields_eq_flatMap, List.mem_flatMap,
      List.mem_map]
    constructor
    · rintro ⟨_, ⟨p, hp, rfl⟩, hw⟩
      obtain ⟨v, hv, hw⟩ := (ih p hp).1 hw
      exact ⟨v, ⟨p, hp, hv⟩, hw⟩
    · rintro ⟨v, ⟨p, hp, hv⟩, hw⟩
      exact ⟨_, ⟨p, hp, rfl⟩, (ih p hp).2 ⟨v, hv, hw⟩⟩

end TypeInference.Ty
