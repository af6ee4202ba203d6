import TypeInference.Proofs.Ty.Parts
import TypeInference.Proofs.Ty.Same
import TypeInference.Unify

/-!
# Comparing outermost forms

What each answer of `Ty.confront` says about the two types. `Decomposes a b pairs` lists the forms
that leave pairs of parts to be made equal (`confront_eq_parts`); a variable is merged with another
or assigned a type that is none (`confront_eq_merge`, `confront_eq_assign`); every other answer is a
clash.

Two readings of equality go through the parts: literal equality of nameless types under a
replacement (`Decomposes.bind_eq_iff`, `bind_ne_of_clash`) and `Ty.Same` (`Decomposes.same`,
`exists_decomposes_of_same`).
-/

namespace TypeInference.Ty

/-- The forms of types that are equal as soon as the given pairs of their parts are. -/
inductive Decomposes : Ty → Ty → List (Ty × Ty) → Prop
  | var (v : TyVar) : Decomposes (.var v) (.var v) []
  | con (n : String) : Decomposes (.con n) (.con n) []
  | name (n : String) (fs : List (String × Ty)) : Decomposes (.con n) (.struct (some n) fs) []
  | declared (n : String) (fs : List (String × Ty)) : Decomposes (.struct (some n) fs) (.con n) []
  | ptr (s t : Ty) : Decomposes (.ptr s) (.ptr t) [(s, t)]
  | fn {ps qs : List Ty} (r s : Ty) : ps.length = qs.length →
      Decomposes (.fn ps r) (.fn qs s) (ps.zip qs ++ [(r, s)])
  | struct {m n : Option String} {fs gs : List (String × Ty)} :
      (∀ x y, m = some x → n = some y → x = y) → fs.map Prod.fst = gs.map Prod.fst →
      Decomposes (.struct m fs) (.struct n gs) ((fs.map Prod.snd).zip (gs.map Prod.snd))

theorem not_two_names_iff {m n : Option String} :
    ¬ (m.isSome ∧ n.isSome ∧ m ≠ n) ↔ ∀ x y, m = some x → n = some y → x = y := by
  cases m <;> cases n <;> simp

theorem confrontFields_eq_parts {m n : Option String} {fs gs : List (String × Ty)}
    {pairs : List (Ty × Ty)} : confrontFields m n fs gs = .parts pairs ↔
      (∀ x y, m = some x → n = some y → x = y) ∧ fs.map Prod.fst = gs.map Prod.fst ∧
        pairs = (fs.map Prod.snd).zip (gs.map Prod.snd) := by
  rw [← not_two_names_iff]
  unfold confrontFields
  split
  · simp [*]
  · rename_i hn
    split
    · rename_i hl
      have hne : fs.map Prod.fst ≠ gs.map Prod.fst := fun h =>
        hl (by simpa using congrArg List.length h)
      simp [hne]
    · split
      · rename_i hf
        simp [hf]
      · rename_i hf
        simp only [Confrontation.parts.injEq, hn, not_false_eq_true, true_and]
        exact ⟨fun h => ⟨Classical.not_not.1 hf, h.symm⟩, fun h => h.2.symm⟩

theorem confront_eq_parts {a b : Ty} {pairs : List (Ty × Ty)} :
    a.confront b = .parts pairs ↔ Decomposes a b pairs := by
  constructor
  · fun_cases confront a b
    case case1 => rintro ⟨⟩; exact .var _
    case case5 => rintro ⟨⟩; exact .con _
    case case7 => rintro ⟨⟩; exact .ptr _ _
    case case8 hl => rintro ⟨⟩; exact .fn _ _ hl
    case case10 => rintro ⟨⟩; exact .name _ _
    case case12 => rintro ⟨⟩; exact .declared _ _
    case case14 =>
      intro h
      obtain ⟨hn, hf, rfl⟩ := confrontFields_eq_parts.1 h
      exact .struct hn hf
    all_goals exact nofun
  · intro h
    cases h with
    | @struct m n fs gs hn hf => cases m <;> exact confrontFields_eq_parts.2 ⟨hn, hf, rfl⟩
    | fn r s hl => exact if_pos hl
    | ptr s t => rfl
    | _ => exact if_pos rfl

theorem confront_eq_merge {a b : Ty} {v w : TyVar} :
    a.confront b = .merge v w ↔ a = .var v ∧ b = .var w ∧ v ≠ w := by
  constructor
  · fun_cases confront a b
    case case2 hne => rintro ⟨⟩; exact ⟨rfl, rfl, hne⟩
    case case14 m fs n gs =>
      unfold confrontFields
      repeat' split
      all_goals exact nofun
    all_goals exact nofun
  · rintro ⟨rfl, rfl, hne⟩
    exact if_neg hne

theorem confront_eq_assign {a b : Ty} {v : TyVar} {t : Ty} :
    a.confront b = .assign v t ↔
      (a = .var v ∧ b = t ∨ a = t ∧ b = .var v) ∧ ∀ w, t ≠ .var w := by
  constructor
  · fun_cases confront a b
    case case3 hne => rintro ⟨⟩; exact ⟨.inl ⟨rfl, rfl⟩, hne⟩
    case case4 hne => rintro ⟨⟩; exact ⟨.inr ⟨rfl, rfl⟩, hne⟩
    case case14 m fs n gs =>
      unfold confrontFields
      repeat' split
      all_goals exact nofun
    all_goals exact nofun
  · rintro ⟨⟨rfl, rfl⟩ | ⟨rfl, rfl⟩, hne⟩
    · cases b with
      | var w => exact absurd rfl (hne w)
      | _ => rfl
    · cases a with
      | var w => exact absurd rfl (hne w)
      | _ => rfl

theorem Decomposes.mem_parts {a b : Ty} {pairs : List (Ty × Ty)} (h : Decomposes a b pairs)
    {p : Ty × Ty} (hp : p ∈ pairs) : p.1 ∈ a.parts ∧ p.2 ∈ b.parts := by
  cases h with
  | ptr s t => obtain rfl := List.mem_singleton.1 hp; simp [parts]
  | fn r s hl =>
    rcases List.mem_append.1 hp with hp | hp
    · have := List.of_mem_zip hp
      simp [parts, this]
    · obtain rfl := List.mem_singleton.1 hp
      simp [parts]
  | struct hn hf => exact List.of_mem_zip hp
  | _ => cases hp

/-- What holds of all pairs holds of all parts of nameless types. -/
theorem Decomposes.forall_parts {a b : Ty} {pairs : List (Ty × Ty)} (h : Decomposes a b pairs)
    (ha : a.Nameless) (hb : b.Nameless) {P : Ty → Prop} (hp : ∀ p ∈ pairs, P p.1 ∧ P p.2) :
    (∀ s ∈ a.parts, P s) ∧ ∀ s ∈ b.parts, P s := by
  have hzip : ∀ {xs ys : List Ty}, xs.length = ys.length → (∀ p ∈ xs.zip ys, P p.1 ∧ P p.2) →
      (∀ s ∈ xs, P s) ∧ ∀ s ∈ ys, P s := fun {xs ys} hl hz => by
    refine ⟨fun s hs => ?_, fun s hs => ?_⟩
    · rw [← List.map_fst_zip (Nat.le_of_eq hl)] at hs
      obtain ⟨p, hp, rfl⟩ := List.mem_map.1 hs
      exact (hz p hp).1
    · rw [← List.map_snd_zip (Nat.le_of_eq hl.symm)] at hs
      obtain ⟨p, hp, rfl⟩ := List.mem_map.1 hs
      exact (hz p hp).2
  cases h with
  | var v => exact ⟨nofun, nofun⟩
  | con n => exact ⟨nofun, nofun⟩
  | name n fs => cases hb
  | declared n fs => cases ha
  | ptr s t => simpa [parts] using hp
  | fn r s hl =>
    obtain ⟨hz, hr⟩ := List.forall_mem_append.1 hp
    obtain ⟨h1, h2⟩ := hzip hl hz
    obtain ⟨hr1, hr2⟩ := List.forall_mem_singleton.1 hr
    exact ⟨List.forall_mem_append.2 ⟨h1, List.forall_mem_singleton.2 hr1⟩,
      List.forall_mem_append.2 ⟨h2, List.forall_mem_singleton.2 hr2⟩⟩
  | struct hn hf => exact hzip (by simpa [parts] using congrArg List.length hf) hp

/-! ## Literal equality -/

theorem map_eq_map_iff {α β : Type} {f : α → β} {xs ys : List α} (h : xs.length = ys.length) :
    xs.map f = ys.map f ↔ ∀ p ∈ xs.zip ys, f p.1 = f p.2 := by
  induction xs generalizing ys with
  | nil => cases ys <;> simp_all
  | cons x xs ih =>
    cases ys with
    | nil => simp at h
    | cons y ys => simp [ih (Nat.succ.inj h)]

theorem fields_ext {fs gs : List (String × Ty)} (hn : fs.map Prod.fst = gs.map Prod.fst)
    (ht : fs.map Prod.snd = gs.map Prod.snd) : fs = gs := by
  rw [← List.zip_unzip fs, ← List.zip_unzip gs, List.unzip_eq_map, List.unzip_eq_map, hn, ht]

/-- Nameless types that decompose become equal exactly when the pairs of their parts do. -/
theorem Decomposes.bind_eq_iff {a b : Ty} {pairs : List (Ty × Ty)} (h : Decomposes a b pairs)
    (ha : a.Nameless) (hb : b.Nameless) (f : TyVar → Ty) :
    a.bind f = b.bind f ↔ ∀ p ∈ pairs, p.1.bind f = p.2.bind f := by
  cases h with
  | var v => simp
  | con n => simp
  | name n fs => cases hb
  | declared n fs => cases ha
  | ptr s t => simp [bind]
  | fn r s hl =>
    simp only [bind, bindAll_eq_map, fn.injEq, map_eq_map_iff hl, List.forall_mem_append,
      List.forall_mem_singleton]
  | struct hn hf =>
    cases ha
    cases hb
    have hl := congrArg List.length hf
    simp only [List.length_map] at hl
    simp only [bind, bindFields_eq_map, struct.injEq, true_and]
    rw [← map_eq_map_iff (f := bind f) (by simpa using hl), ← map_snd_fields, ← map_snd_fields]
    exact ⟨fun h => congrArg _ h, fields_ext (by simpa [Function.comp_def] using hf)⟩

end TypeInference.Ty

namespace TypeInference.Confrontation

/-- Answers that rule equality out. -/
inductive Clash : Confrontation → Prop
  | shape : Clash .differentShape
  | names : Clash .differentNames
  | arity (m n : Nat) : Clash (.differentArity m n)

end TypeInference.Confrontation

namespace TypeInference.Ty

theorem bind_ne_of_clash {a b : Ty} (h : (a.confront b).Clash) (ha : a.Nameless) (hb : b.Nameless)
    (f : TyVar → Ty) : a.bind f ≠ b.bind f := by
  revert h
  fun_cases confront a b
  case case6 hne => simpa [bind] using fun _ => hne
  case case9 hne =>
    intro _ he
    simp only [bind, bindAll_eq_map, fn.injEq] at he
    exact hne (by simpa using congrArg List.length he.1)
  case case11 => cases hb
  case case13 => cases ha
  case case14 m fs n gs =>
    cases ha
    cases hb
    intro h he
    simp only [bind, bindFields_eq_map, struct.injEq, true_and] at he
    have hf : fs.map Prod.fst = gs.map Prod.fst := by
      simpa [Function.comp_def] using congrArg (List.map Prod.fst) he
    rw [confrontFields_eq_parts.2 ⟨by simp, hf, rfl⟩] at h
    cases h
  case case15 h1 h2 h3 h4 h5 h6 h7 h8 h9 =>
    intro _ he
    cases ha <;> cases hb <;> simp_all [bind]
    · exact h6 _ _ _ _ rfl rfl rfl rfl
    · exact h9 _ _ _ _ rfl rfl rfl rfl
  all_goals
    intro h
    cases h

/-! ## Equality up to names -/

/-- Parts that are the same make the wholes the same. -/
theorem Decomposes.same {a b : Ty} {pairs : List (Ty × Ty)} (h : Decomposes a b pairs)
    {f : TyVar → Ty} (hp : ∀ p ∈ pairs, Same (p.1.bind f) (p.2.bind f)) :
    Same (a.bind f) (b.bind f) := by
  cases h with
  | var v => exact .refl _
  | con n => exact .refl _
  | name n fs => exact .name n _
  | declared n fs => exact .declared n _
  | ptr s t => exact .ptr (hp _ (List.mem_singleton.2 rfl))
  | fn r s hl =>
    simp only [List.forall_mem_append, List.forall_mem_singleton] at hp
    simp only [bind, bindAll_eq_map]
    refine .fn (by simpa using hl) (fun p h => ?_) hp.2
    rw [List.zip_map] at h
    obtain ⟨q, hq, rfl⟩ := List.mem_map.1 h
    exact hp.1 q hq
  | struct hn hf =>
    simp only [bind, bindFields_eq_map]
    refine .struct hn (by simpa [Function.comp_def] using hf) fun p h => ?_
    rw [map_snd_fields, map_snd_fields, List.zip_map] at h
    obtain ⟨q, hq, rfl⟩ := List.mem_map.1 h
    exact hp q hq

/-- Types that are no variables and become the same decompose into parts that become the same. -/
theorem exists_decomposes_of_same {a b : Ty} {f : TyVar → Ty} (ha : ∀ v, a ≠ .var v)
    (hb : ∀ v, b ≠ .var v) (h : Same (a.bind f) (b.bind f)) :
    ∃ pairs, Decomposes a b pairs ∧ ∀ p ∈ pairs, Same (p.1.bind f) (p.2.bind f) := by
  cases a with
  | var v => exact absurd rfl (ha v)
  | con m =>
    cases b with
    | con n => obtain rfl := Same.con_con.1 h; exact ⟨_, .con m, by simp⟩
    | struct n gs => obtain rfl := Same.con_struct.1 h; exact ⟨_, .name m gs, by simp⟩
    | var v => exact absurd rfl (hb v)
    | _ => cases h
  | ptr s =>
    cases b with
    | ptr t => exact ⟨_, .ptr s t, List.forall_mem_singleton.2 (Same.ptr_ptr.1 h)⟩
    | var v => exact absurd rfl (hb v)
    | _ => cases h
  | fn ps r =>
    cases b with
    | fn qs s =>
      simp only [bind, bindAll_eq_map, Same.fn_fn, List.length_map, List.zip_map,
        List.forall_mem_map] at h
      exact ⟨_, .fn r s h.1, List.forall_mem_append.2
        ⟨h.2.1, List.forall_mem_singleton.2 h.2.2⟩⟩
    | var v => exact absurd rfl (hb v)
    | _ => cases h
  | struct m fs =>
    cases b with
    | con n => obtain rfl := Same.struct_con.1 h; exact ⟨_, .declared n fs, by simp⟩
    | struct n gs =>
      simp only [bind, bindFields_eq_map, Same.struct_struct] at h
      rw [map_snd_fields, map_snd_fields, List.zip_map] at h
      simp only [List.forall_mem_map, List.map_map, Function.comp_def] at h
      exact ⟨_, .struct h.1 h.2.1, h.2.2⟩
    | var v => exact absurd rfl (hb v)
    | _ => cases h

end TypeInference.Ty
