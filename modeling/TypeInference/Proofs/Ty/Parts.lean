import TypeInference.Ty.Lemmas

/-!
# Parts of a type

`parts t` lists what stands directly below the outermost form of `t`. A part is lower and smaller
than its whole (`height_lt_of_mem_parts`, `size_lt_of_mem_parts`), mentions no other variables
(`occurrences_of_mem_parts`) and stays a part under replacement (`bind_mem_parts`). What replaces a
variable is at most as high as the whole image, and lower if the variable stands below the top
(`height_bind_lt`): no type is a proper part of itself.

`Nameless t`: no layout inside `t` carries a name.
-/

namespace TypeInference.Ty

/-- What stands directly below the outermost form of a type. -/
def parts : Ty → List Ty
  | .var _ | .con _ => []
  | .ptr t => [t]
  | .fn ps r => ps ++ [r]
  | .struct _ fs => fs.map Prod.snd

/-- No layout inside the type carries a name. -/
inductive Nameless : Ty → Prop
  | var (v : TyVar) : Nameless (.var v)
  | con (n : String) : Nameless (.con n)
  | ptr {t : Ty} : Nameless t → Nameless (.ptr t)
  | fn {ps : List Ty} {r : Ty} : (∀ p ∈ ps, Nameless p) → Nameless r → Nameless (.fn ps r)
  | struct {fs : List (String × Ty)} : (∀ f ∈ fs, Nameless f.2) → Nameless (.struct none fs)

theorem Nameless.of_mem_parts {s t : Ty} (h : Nameless t) (hs : s ∈ t.parts) : Nameless s := by
  cases h with
  | var v => simp [parts] at hs
  | con n => simp [parts] at hs
  | ptr h => obtain rfl := List.mem_singleton.1 hs; exact h
  | fn hp hr =>
    rcases List.mem_append.1 hs with hs | hs
    · exact hp s hs
    · obtain rfl := List.mem_singleton.1 hs; exact hr
  | struct hf =>
    obtain ⟨f, hf', rfl⟩ := List.mem_map.1 hs
    exact hf f hf'

/-! ## Height -/

theorem heightAll_le_iff {ts : List Ty} {n : Nat} : heightAll ts ≤ n ↔ ∀ t ∈ ts, t.height ≤ n := by
  induction ts with
  | nil => simp [heightAll]
  | cons t ts ih => simp only [heightAll, Nat.max_le, ih, List.forall_mem_cons]

theorem heightFields_le_iff {fs : List (String × Ty)} {n : Nat} :
    heightFields fs ≤ n ↔ ∀ f ∈ fs, f.2.height ≤ n := by
  induction fs with
  | nil => simp [heightFields]
  | cons f fs ih => simp only [heightFields, Nat.max_le, ih, List.forall_mem_cons]

theorem height_le_succ_iff {t : Ty} {n : Nat} :
    t.height ≤ n + 1 ↔ ∀ s ∈ t.parts, s.height ≤ n := by
  cases t with
  | var v => simp [height, parts]
  | con c => simp [height, parts]
  | ptr t => simp [height, parts]
  | fn ps r =>
    simp only [height, parts, Nat.add_le_add_iff_right, Nat.max_le, heightAll_le_iff,
      List.mem_append, List.mem_singleton]
    exact ⟨fun h s hs => hs.elim (h.1 s) (· ▸ h.2),
      fun h => ⟨fun s hs => h s (.inl hs), h r (.inr rfl)⟩⟩
  | struct c fs =>
    simp only [height, parts, Nat.add_le_add_iff_right, heightFields_le_iff, List.forall_mem_map]

theorem height_eq_zero {t : Ty} (h : t.height = 0) : (∃ v, t = .var v) ∨ ∃ n, t = .con n := by
  cases t <;> simp_all [height]

theorem height_lt_of_mem_parts {s t : Ty} (h : s ∈ t.parts) : s.height < t.height := by
  cases ht : t.height with
  | zero => obtain ⟨v, rfl⟩ | ⟨n, rfl⟩ := height_eq_zero ht <;> simp [parts] at h
  | succ n => exact Nat.lt_succ_of_le (height_le_succ_iff.1 (Nat.le_of_eq ht) s h)

/-! ## Size -/

mutual

/-- The number of nodes of a type. -/
def size : Ty → Nat
  | .var _ | .con _ => 1
  | .ptr t => size t + 1
  | .fn ps r => sizeAll ps + size r + 1
  | .struct _ fs => sizeFields fs + 1

def sizeAll : List Ty → Nat
  | [] => 0
  | t :: ts => size t + sizeAll ts

def sizeFields : List (String × Ty) → Nat
  | [] => 0
  | (_, t) :: fs => size t + sizeFields fs

end

theorem size_le_sizeAll {ts : List Ty} {t : Ty} (h : t ∈ ts) : t.size ≤ sizeAll ts := by
  induction ts with
  | nil => cases h
  | cons s ts ih =>
    simp only [sizeAll]
    rcases List.mem_cons.1 h with rfl | h
    · omega
    · have := ih h
      omega

theorem size_le_sizeFields {fs : List (String × Ty)} {f : String × Ty} (h : f ∈ fs) :
    f.2.size ≤ sizeFields fs := by
  induction fs with
  | nil => cases h
  | cons g fs ih =>
    simp only [sizeFields]
    rcases List.mem_cons.1 h with rfl | h
    · omega
    · have := ih h
      omega

theorem size_lt_of_mem_parts {s t : Ty} (h : s ∈ t.parts) : s.size < t.size := by
  cases t with
  | var v => simp [parts] at h
  | con n => simp [parts] at h
  | ptr t =>
    obtain rfl := List.mem_singleton.1 h
    simp [size]
  | fn ps r =>
    simp only [size]
    rcases List.mem_append.1 h with h | h
    · have := size_le_sizeAll h
      omega
    · obtain rfl := List.mem_singleton.1 h
      omega
  | struct n fs =>
    obtain ⟨f, hf, rfl⟩ := List.mem_map.1 h
    have := size_le_sizeFields hf
    simp only [size]
    omega

/-! ## Variables -/

theorem occurrences_of_mem_parts {s t : Ty} (h : s ∈ t.parts) {v : TyVar}
    (hv : v ∈ s.occurrences) : v ∈ t.occurrences := by
  cases t with
  | var w => simp [parts] at h
  | con n => simp [parts] at h
  | ptr t => obtain rfl := List.mem_singleton.1 h; exact hv
  | fn ps r =>
    simp only [occurrences, occurrencesAll_eq_flatMap, List.mem_append, List.mem_flatMap]
    rcases List.mem_append.1 h with h | h
    · exact .inl ⟨s, h, hv⟩
    · obtain rfl := List.mem_singleton.1 h; exact .inr hv
  | struct n fs =>
    obtain ⟨f, hf, rfl⟩ := List.mem_map.1 h
    simp only [occurrences, occurrencesFields_eq_flatMap, List.mem_flatMap]
    exact ⟨f, hf, hv⟩

/-- A variable below the top of a type stands in one of its parts. -/
theorem exists_mem_parts {t : Ty} (h : ∀ w, t ≠ .var w) {v : TyVar} (hv : v ∈ t.occurrences) :
    ∃ s ∈ t.parts, v ∈ s.occurrences := by
  cases t with
  | var w => exact absurd rfl (h w)
  | con n => simp [occurrences] at hv
  | ptr t => exact ⟨t, by simp [parts], hv⟩
  | fn ps r =>
    simp only [occurrences, occurrencesAll_eq_flatMap, List.mem_append, List.mem_flatMap] at hv
    rcases hv with ⟨p, hp, hv⟩ | hv
    · exact ⟨p, by simp [parts, hp], hv⟩
    · exact ⟨r, by simp [parts], hv⟩
  | struct n fs =>
    simp only [occurrences, occurrencesFields_eq_flatMap, List.mem_flatMap] at hv
    obtain ⟨f, hf, hv⟩ := hv
    exact ⟨f.2, List.mem_map_of_mem hf, hv⟩

/-! ## Replacement -/

theorem bind_ne_var {t : Ty} (h : ∀ w, t ≠ .var w) (f : TyVar → Ty) (w : TyVar) :
    t.bind f ≠ .var w := by
  cases t with
  | var v => exact absurd rfl (h v)
  | _ => simp [bind]

theorem parts_bind {t : Ty} (h : ∀ w, t ≠ .var w) (f : TyVar → Ty) :
    (t.bind f).parts = t.parts.map (bind f) := by
  cases t with
  | var v => exact absurd rfl (h v)
  | con n => rfl
  | ptr t => rfl
  | fn ps r => simp [bind, bindAll_eq_map, parts]
  | struct n fs => simp [bind, bindFields_eq_map, parts]

theorem bind_mem_parts {s t : Ty} (h : s ∈ t.parts) (f : TyVar → Ty) :
    s.bind f ∈ (t.bind f).parts := by
  rw [parts_bind (fun w hw => by simp [hw, parts] at h)]
  exact List.mem_map_of_mem h

theorem height_bind_le {t : Ty} {v : TyVar} (f : TyVar → Ty) (hv : v ∈ t.occurrences) :
    (f v).height ≤ (t.bind f).height := by
  induction h : t.height using Nat.strongRecOn generalizing t with
  | _ n ih =>
    subst h
    by_cases ht : ∃ w, t = .var w
    · obtain ⟨w, rfl⟩ := ht
      obtain rfl := List.mem_singleton.1 hv
      exact Nat.le_refl _
    · obtain ⟨s, hs, hvs⟩ := exists_mem_parts (fun w hw => ht ⟨w, hw⟩) hv
      exact Nat.le_trans (ih _ (height_lt_of_mem_parts hs) hvs rfl)
        (Nat.le_of_lt (height_lt_of_mem_parts (bind_mem_parts hs f)))

theorem height_bind_lt {t : Ty} (ht : ∀ w, t ≠ .var w) {v : TyVar} (f : TyVar → Ty)
    (hv : v ∈ t.occurrences) : (f v).height < (t.bind f).height := by
  obtain ⟨s, hs, hvs⟩ := exists_mem_parts ht hv
  exact Nat.lt_of_le_of_lt (height_bind_le f hvs) (height_lt_of_mem_parts (bind_mem_parts hs f))

/-- Replacing variables by types of bounded height adds at most that bound to the height. -/
theorem height_bind_le_add {t : Ty} {f : TyVar → Ty} {n : Nat}
    (h : ∀ v ∈ t.occurrences, (f v).height ≤ n) : (t.bind f).height ≤ t.height + n := by
  induction ht : t.height using Nat.strongRecOn generalizing t with
  | _ m ih =>
    cases m with
    | zero =>
      obtain ⟨v, rfl⟩ | ⟨c, rfl⟩ := height_eq_zero ht
      · simpa [bind] using h v (by simp [occurrences])
      · simp [bind, height]
    | succ m =>
      have hne : ∀ w, t ≠ .var w := fun w hw => by simp [hw, height] at ht
      rw [Nat.add_right_comm, height_le_succ_iff, parts_bind hne]
      refine List.forall_mem_map.2 fun s hs => ?_
      have hlt := height_lt_of_mem_parts hs
      have := ih _ (ht ▸ hlt) (fun v hv => h v (occurrences_of_mem_parts hs hv)) rfl
      omega

end TypeInference.Ty
