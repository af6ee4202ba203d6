import Mathlib.Logic.Relation
import TypeInference.Proofs.Program.Regions

/-!
# The law of look-up

`Growth T T'`: in the tree `T`, a scope is opened, a name declared or a slot filled, always inside a
scope and for a symbol that `T` has. A tree is `Grown` if such operations build it from the initial
one. All of them are `Layered`: every scope but the root is younger than its parent and one level
below it (`Grown.layered`). So the way outward from a scope ends at the root, after as many scopes
as its level says (`Layered.length_ancestors`), and a look-up goes one scope at a time
(`Layered.lookup?_eq`); facts about look-ups follow by induction outward (`Layered.induct`).

`T.Reaches t s name`: a look-up of the name from `t` gets as far as `s`. A name is found in the
scope that is reached and binds it (`find?_eq_some_iff`). A declaration in `s` changes what its name
denotes in the scopes that reach `s`, and nothing else (`Layered.lookup?_declare`); a new scope
changes nothing for those that are there (`Layered.lookups_newScope`).
-/

namespace TypeInference.ScopeTree

/-! ## Trees that can arise -/

/-- One operation on the tree (module doc). -/
inductive Growth : ScopeTree → ScopeTree → Prop
  | newScope {T : ScopeTree} {parent : ScopeId} :
      parent < T.scopes.size → Growth T (T.newScope parent).2
  | declare {T : ScopeTree} {s : ScopeId} (z : Symbol) :
      s < T.scopes.size → Growth T (T.declare s z).2
  | setScheme {T : ScopeTree} {x : SymbolId} (σ : Scheme) :
      x < T.symbols.size → Growth T (T.setScheme x σ)

/-- A tree that operations build from the initial one. -/
def Grown (T : ScopeTree) : Prop := Relation.ReflTransGen Growth initial T

/-- The scopes hang below the root in levels (module doc). -/
structure Layered (T : ScopeTree) : Prop where
  nonempty : rootScope < T.scopes.size
  parent_root : T.parent? rootScope = none
  level_root : T.level rootScope = 1
  parent : ∀ s < T.scopes.size, s ≠ rootScope →
    ∃ p < s, T.parent? s = some p ∧ T.level s = T.level p + 1

/-- A look-up of the name from `t` gets as far as `s`: `s` is on the way outward from `t`, and no
scope before it binds the name. -/
def Reaches (T : ScopeTree) (t s : ScopeId) (name : String) : Prop :=
  ∃ inner outer, T.ancestors t = inner ++ s :: outer ∧
    ∀ a ∈ inner, (T.bindings a).get? name = none

/-- The first scope that is `s` or binds the name is `s`. -/
theorem reaches_iff_find? {T : ScopeTree} {t s : ScopeId} {name : String} : T.Reaches t s name ↔
    (T.ancestors t).find? (fun a => a == s || (T.bindings a).contains name) = some s := by
  constructor
  · rintro ⟨inner, outer, ha, hn⟩
    rw [ha, List.find?_append]
    cases hf : inner.find? fun a => a == s || (T.bindings a).contains name with
    | none => simp
    | some a =>
      have hb := Assoc.contains_eq_false.2 (hn a (List.mem_of_find?_eq_some hf))
      have has := List.find?_some hf
      rw [hb, Bool.or_false, beq_iff_eq] at has
      rw [has, Option.some_or]
  · intro hf
    obtain ⟨-, inner, outer, ha, hn⟩ := List.find?_eq_some_iff_append.1 hf
    refine ⟨inner, outer, ha, fun a hm => Assoc.contains_eq_false.1 ?_⟩
    have hna := hn a hm
    simp only [Bool.not_or, Bool.and_eq_true, Bool.not_eq_true'] at hna
    exact hna.2

instance (T : ScopeTree) (t s : ScopeId) (name : String) : Decidable (T.Reaches t s name) :=
  decidable_of_iff _ reaches_iff_find?.symm

section
variable {T T' : ScopeTree} {s t : ScopeId}

theorem layered_initial : initial.Layered where
  nonempty := Nat.one_pos
  parent_root := rfl
  level_root := rfl
  parent _ hs hne := absurd (Nat.lt_one_iff.1 hs) hne

theorem Layered.newScope (h : T.Layered) (hs : s < T.scopes.size) : (T.newScope s).2.Layered := by
  have hroot : ¬ rootScope = T.scopes.size := Nat.ne_of_lt h.nonempty
  refine ⟨?_, ?_, ?_, fun a ha hne => ?_⟩
  · rw [size_scopes_newScope]
    exact Nat.lt_succ_of_lt h.nonempty
  · rw [parent?_newScope, if_neg hroot, h.parent_root]
  · rw [level_newScope, if_neg hroot, h.level_root]
  · rw [size_scopes_newScope] at ha
    by_cases hnew : a = T.scopes.size
    · refine ⟨s, hnew ▸ hs, ?_, ?_⟩
      · rw [parent?_newScope, if_pos hnew]
      · rw [level_newScope, if_pos hnew, level_newScope, if_neg (Nat.ne_of_lt hs)]
    · have ha : a < T.scopes.size := Nat.lt_of_le_of_ne (Nat.le_of_lt_succ ha) hnew
      obtain ⟨p, hp, hpa, hl⟩ := h.parent a ha hne
      refine ⟨p, hp, ?_, ?_⟩
      · rw [parent?_newScope, if_neg hnew, hpa]
      · rw [level_newScope, if_neg hnew, level_newScope,
          if_neg (Nat.ne_of_lt (Nat.lt_trans hp ha)), hl]

theorem Layered.declare (h : T.Layered) (s : ScopeId) (z : Symbol) :
    (T.declare s z).2.Layered where
  nonempty := by simpa using h.nonempty
  parent_root := by rw [parent?_declare, h.parent_root]
  level_root := by rw [level_declare, h.level_root]
  parent a ha hne := by
    obtain ⟨p, hp, hpa, hl⟩ := h.parent a (by simpa using ha) hne
    exact ⟨p, hp, by rw [parent?_declare, hpa], by rw [level_declare, level_declare, hl]⟩

theorem Layered.growth (h : T.Layered) (hs : Growth T T') : T'.Layered := by
  cases hs with
  | newScope hp => exact h.newScope hp
  | declare z _ => exact h.declare _ z
  | setScheme σ _ => exact ⟨h.nonempty, h.parent_root, h.level_root, h.parent⟩

theorem Grown.layered (hT : Grown T) : T.Layered := by
  induction hT with
  | refl => exact layered_initial
  | tail _ hs ih => exact ih.growth hs

/-! ## The way outward -/

theorem lt_of_parent? {p : ScopeId} (hp : T.parent? s = some p) : s < T.scopes.size := by
  obtain ⟨c, hc, -⟩ := Option.bind_eq_some_iff.1 hp
  exact lt_of_scope? hc

theorem Layered.of_parent? (h : T.Layered) {p : ScopeId} (hp : T.parent? s = some p) :
    p < s ∧ T.level s = T.level p + 1 := by
  have hne : s ≠ rootScope := fun hs => by
    rw [hs, h.parent_root] at hp
    cases hp
  obtain ⟨q, hq, hqs, hl⟩ := h.parent s (lt_of_parent? hp) hne
  obtain rfl : q = p := Option.some.inj (hqs.symm.trans hp)
  exact ⟨hq, hl⟩

theorem Layered.eq_root (h : T.Layered) (hs : s < T.scopes.size) (hp : T.parent? s = none) :
    s = rootScope := by
  refine Classical.byContradiction fun hne => ?_
  obtain ⟨p, -, hps, -⟩ := h.parent s hs hne
  rw [hp] at hps
  cases hps

/-- Induction on a scope, outward: for a scope that has a parent, the hypothesis speaks of it. -/
theorem Layered.induct (h : T.Layered) {motive : ∀ s < T.scopes.size, Prop}
    (step : ∀ s (hs : s < T.scopes.size),
      (∀ p (hp : p < T.scopes.size), T.parent? s = some p → motive p hp) → motive s hs)
    (s : ScopeId) (hs : s < T.scopes.size) : motive s hs := by
  induction s using Nat.strongRecOn with
  | _ s ih => exact step s hs fun p hp hps => ih p (h.of_parent? hps).1 hp

/-- Fuel for all older scopes is enough. -/
theorem Layered.ancestorsFrom_eq (h : T.Layered) : ∀ (n m s : Nat), s < n → s < m →
    T.ancestorsFrom n s = T.ancestorsFrom m s
  | n + 1, m + 1, s, hn, hm => by
    unfold ancestorsFrom
    cases hp : T.parent? s with
    | none => rfl
    | some p =>
      have hlt : p < s := (h.of_parent? hp).1
      exact congrArg (s :: ·) (h.ancestorsFrom_eq n m p
        (Nat.lt_of_lt_of_le hlt (Nat.le_of_lt_succ hn))
        (Nat.lt_of_lt_of_le hlt (Nat.le_of_lt_succ hm)))

/-- The way outward goes on from the parent. -/
theorem Layered.ancestors_eq (h : T.Layered) (s : ScopeId) :
    T.ancestors s = s :: ((T.parent? s).map T.ancestors).getD [] := by
  obtain ⟨n, hn⟩ := Nat.exists_eq_succ_of_ne_zero (Nat.ne_zero_of_lt h.nonempty)
  rw [ancestors, hn, ancestorsFrom]
  cases hp : T.parent? s with
  | none => rfl
  | some p =>
    have hlt : p < n := Nat.lt_of_lt_of_le (h.of_parent? hp).1
      (Nat.le_of_lt_succ (hn ▸ lt_of_parent? hp))
    exact congrArg (s :: ·) (h.ancestorsFrom_eq _ _ p hlt (hn ▸ Nat.lt_succ_of_lt hlt))

theorem Layered.getLast?_ancestors (h : T.Layered) (hs : s < T.scopes.size) :
    (T.ancestors s).getLast? = some rootScope := by
  induction s, hs using h.induct with
  | step s hs ih =>
    rw [h.ancestors_eq, List.getLast?_cons]
    cases hp : T.parent? s with
    | none => exact congrArg some (h.eq_root hs hp)
    | some p =>
      have hlt := Nat.lt_trans (h.of_parent? hp).1 hs
      rw [Option.map_some, Option.getD_some, ih p hlt hp, Option.getD_some]

theorem Layered.length_ancestors (h : T.Layered) (hs : s < T.scopes.size) :
    (T.ancestors s).length = T.level s := by
  induction s, hs using h.induct with
  | step s hs ih =>
    rw [h.ancestors_eq, List.length_cons]
    cases hp : T.parent? s with
    | none =>
      rw [h.eq_root hs hp, h.level_root]
      rfl
    | some p =>
      obtain ⟨hlt, hl⟩ := h.of_parent? hp
      rw [Option.map_some, Option.getD_some, ih p (Nat.lt_trans hlt hs) hp, hl]

theorem Layered.lt_of_mem_ancestors (h : T.Layered) (hs : s < T.scopes.size) :
    ∀ a ∈ T.ancestors s, a < T.scopes.size := by
  induction s, hs using h.induct with
  | step s hs ih =>
    rw [h.ancestors_eq]
    refine List.forall_mem_cons.2 ⟨hs, ?_⟩
    cases hp : T.parent? s with
    | none => nofun
    | some p => exact ih p (Nat.lt_trans (h.of_parent? hp).1 hs) hp

/-! ## Look-up -/

/-- A name is found in the scope that is reached and binds it. -/
theorem find?_eq_some_iff {name : String} {home : ScopeId} : T.find? s name = some home ↔
    T.Reaches s home name ∧ ∃ y, (T.bindings home).get? name = some y := by
  have hbinds : ∀ a, (T.bindings a).contains name = true ↔
      ∃ y, (T.bindings a).get? name = some y := fun _ => Option.isSome_iff_exists
  simp only [find?, List.find?_eq_some_iff_append, hbinds, Bool.not_eq_true',
    Assoc.contains_eq_false]
  exact and_comm

/-- A name is looked for in the scope first, then from the parent. -/
theorem Layered.find?_eq (h : T.Layered) (s : ScopeId) (name : String) :
    T.find? s name = if (T.bindings s).contains name then some s
      else (T.parent? s).bind fun p => T.find? p name := by
  unfold find?
  rw [h.ancestors_eq, List.find?_cons]
  cases (T.bindings s).contains name with
  | true => rfl
  | false => cases T.parent? s <;> rfl

/-- A name denotes what the scope binds it to, or else what it denotes in the parent. -/
theorem Layered.lookup?_eq (h : T.Layered) (s : ScopeId) (name : String) : T.lookup? s name =
    ((T.bindings s).get? name).or ((T.parent? s).bind fun p => T.lookup? p name) := by
  unfold lookup?
  rw [h.find?_eq]
  cases hy : (T.bindings s).get? name with
  | some y => simp [Assoc.contains, hy]
  | none => cases T.parent? s <;> simp [Assoc.contains, hy]

/-- A look-up reaches its own scope, and from a scope without the name what the parent reaches. -/
theorem Layered.reaches_iff (h : T.Layered) {name : String} : T.Reaches t s name ↔
    t = s ∨ (T.bindings t).get? name = none ∧ ∃ p, T.parent? t = some p ∧ T.Reaches p s name := by
  unfold Reaches
  rw [h.ancestors_eq t]
  constructor
  · rintro ⟨inner, outer, hway, hn⟩
    cases inner with
    | nil => exact .inl (List.cons.inj hway).1
    | cons a inner =>
      obtain ⟨rfl, ha⟩ := List.cons.inj hway
      obtain ⟨hna, hn⟩ := List.forall_mem_cons.1 hn
      cases hp : T.parent? t with
      | none =>
        rw [hp] at ha
        simp at ha
      | some p =>
        rw [hp] at ha
        exact .inr ⟨hna, p, rfl, inner, outer, ha, hn⟩
  · rintro (rfl | ⟨hn, p, hp, inner, outer, ha, hni⟩)
    · exact ⟨[], _, rfl, nofun⟩
    · refine ⟨t :: inner, outer, ?_, List.forall_mem_cons.2 ⟨hn, hni⟩⟩
      rw [hp, Option.map_some, Option.getD_some, ha]
      rfl

/-! ## What operations change -/

/-- A new scope is on no way outward from those that are there. -/
theorem Layered.lookups_newScope (h : T.Layered) (hs : s < T.scopes.size) (ht : t < T.scopes.size)
    (name : String) : (T.newScope s).2.find? t name = T.find? t name ∧
      (T.newScope s).2.lookup? t name = T.lookup? t name := by
  have h' := h.newScope hs
  induction t, ht using h.induct with
  | step t ht ih =>
    have hold : t ≠ T.scopes.size := Nat.ne_of_lt ht
    rw [h'.find?_eq, h'.lookup?_eq, bindings_newScope, parent?_newScope, if_neg hold, if_neg hold,
      h.find?_eq, h.lookup?_eq]
    cases hp : T.parent? t with
    | none => exact ⟨rfl, rfl⟩
    | some p =>
      obtain ⟨hf, hl⟩ := ih p (Nat.lt_trans (h.of_parent? hp).1 ht) hp
      simp only [Option.bind_some, hf, hl, and_self]

/-- A declaration is what its name denotes from where its scope is reached. Elsewhere, and for other
names, it changes nothing. -/
theorem Layered.lookup?_declare (h : T.Layered) (hs : s < T.scopes.size) (z : Symbol)
    (ht : t < T.scopes.size) (name : String) : (T.declare s z).2.lookup? t name =
      if name = z.name ∧ T.Reaches t s name then some T.symbols.size else T.lookup? t name := by
  have h' := h.declare s z
  induction t, ht using h.induct with
  | step t ht ih =>
    by_cases hts : name = z.name ∧ t = s
    · obtain ⟨rfl, rfl⟩ := hts
      rw [if_pos ⟨rfl, h.reaches_iff.2 (.inl rfl)⟩, h'.lookup?_eq, bindings_declare hs,
        Assoc.get?_insert_self, Option.some_or]
    -- the scope binds the name as it did before
    · have hb : ((T.declare s z).2.bindings t).get? name = (T.bindings t).get? name := by
        by_cases hst : s = t
        · subst hst
          rw [bindings_declare hs, Assoc.get?_insert_of_ne _ fun hn => hts ⟨hn.symm, rfl⟩]
        · rw [bindings_declare_of_ne hst]
      have hr : name = z.name ∧ T.Reaches t s name ↔ (T.bindings t).get? name = none ∧
          ∃ p, T.parent? t = some p ∧ name = z.name ∧ T.Reaches p s name := by
        rw [h.reaches_iff]
        constructor
        · rintro ⟨hn, ht | ⟨hy, p, hp, hr⟩⟩
          · exact absurd ⟨hn, ht⟩ hts
          · exact ⟨hy, p, hp, hn, hr⟩
        · rintro ⟨hy, p, hp, hn, hr⟩
          exact ⟨hn, .inr ⟨hy, p, hp, hr⟩⟩
      rw [h'.lookup?_eq, hb, parent?_declare, h.lookup?_eq t]
      simp only [hr]
      cases hy : (T.bindings t).get? name with
      | some y => simp
      | none =>
        cases hp : T.parent? t with
        | none => simp
        | some p => simpa using ih p (Nat.lt_trans (h.of_parent? hp).1 ht) hp

end

/-- The law of look-up, on every tree that can arise. The scopes hang below the root in levels, so
the way outward from a scope leads from parent to parent and ends at the root after as many scopes
as the level says. A name is found in the first scope on this way that binds it, and denotes what it
is bound to there. A declaration is what its name denotes from each scope from which its own scope
is reached, and changes no other look-up; a new scope and the filling of a slot change none. -/
theorem Grown.lookup_law {T : ScopeTree} (hT : Grown T) :
    T.Layered ∧
    (∀ s < T.scopes.size, T.ancestors s = s :: ((T.parent? s).map T.ancestors).getD [] ∧
      (T.ancestors s).getLast? = some rootScope ∧ (T.ancestors s).length = T.level s ∧
      ∀ a ∈ T.ancestors s, a < T.scopes.size) ∧
    (∀ s < T.scopes.size, ∀ name,
      (∀ home, T.find? s name = some home ↔
        T.Reaches s home name ∧ ∃ y, (T.bindings home).get? name = some y) ∧
      ∀ y, T.lookup? s name = some y ↔
        ∃ home, T.find? s name = some home ∧ (T.bindings home).get? name = some y) ∧
    (∀ s < T.scopes.size, ∀ z, (T.declare s z).2.symbol? (T.declare s z).1 = some z ∧
      ∀ t < T.scopes.size, ∀ name, (T.declare s z).2.lookup? t name =
        if name = z.name ∧ T.Reaches t s name then some (T.declare s z).1 else T.lookup? t name) ∧
    ∀ t < T.scopes.size, ∀ name,
      (∀ s < T.scopes.size, (T.newScope s).2.find? t name = T.find? t name ∧
        (T.newScope s).2.lookup? t name = T.lookup? t name) ∧
      ∀ x < T.symbols.size, ∀ σ, (T.setScheme x σ).find? t name = T.find? t name ∧
        (T.setScheme x σ).lookup? t name = T.lookup? t name := by
  have h := hT.layered
  refine ⟨h, fun s hs => ⟨h.ancestors_eq s, h.getLast?_ancestors hs, h.length_ancestors hs,
      h.lt_of_mem_ancestors hs⟩,
    fun s _ name => ⟨fun home => find?_eq_some_iff, fun y => Option.bind_eq_some_iff⟩,
    fun s hs z => ⟨?_, fun t ht name => h.lookup?_declare hs z ht name⟩,
    fun t ht name => ⟨fun s hs => h.lookups_newScope hs ht name, fun x _ σ => ?_⟩⟩
  · rw [symbol?_declare]
    exact if_pos rfl
  · have hscopes := scopes_setScheme T x σ
    exact ⟨find?_congr hscopes t name, lookup?_congr hscopes t name⟩

/-- Two scopes inside each other in the root, of which the outer one shadows a name of the root, and
a scope beside them. The name is declared again: in the root it is seen from the scope beside only,
in the outer scope from inside only, and in the scope beside from nowhere else. -/
theorem lookup_law_shadowed :
    let x : Symbol := ⟨"x", .variable, ⟨0, 1⟩, none⟩
    let T₀ : ScopeTree := (initial.declare 0 x).2
    let T₃ : ScopeTree := (((T₀.newScope 0).2.newScope 1).2.newScope 0).2
    let T : ScopeTree := (T₃.declare 1 x).2
    T.ancestors 2 = [2, 1, 0] ∧ T.level 2 = 3 ∧ T.find? 2 "x" = some 1 ∧
      T.lookup? 2 "x" = some 1 ∧ T.lookup? 3 "x" = some 0 ∧
      (T.declare 0 x).2.lookup? 2 "x" = some 1 ∧ (T.declare 0 x).2.lookup? 3 "x" = some 2 ∧
      (T.declare 1 x).2.lookup? 2 "x" = some 2 ∧ (T.declare 1 x).2.lookup? 3 "x" = some 0 ∧
      (T.declare 3 x).2.lookup? 2 "x" = some 1 ∧ (T.newScope 3).2.lookup? 3 "x" = some 0 := by
  intro x T₀ T₃ T
  have h₀ : Grown T₀ := .tail .refl (.declare x Nat.one_pos)
  have h₃ : Grown T₃ := .tail (.tail (.tail h₀ (.newScope (by decide))) (.newScope (by decide)))
    (.newScope (by decide))
  have hT : Grown T := .tail h₃ (.declare x (by decide))
  obtain ⟨-, hway, hfind, hdeclare, hkeep⟩ := hT.lookup_law
  have hout : T.ancestors 2 = [2, 1, 0] := rfl
  obtain ⟨-, -, hlength, -⟩ := hway 2 (by decide)
  have hfound : T.find? 2 "x" = some 1 :=
    ((hfind 2 (by decide) "x").1 1).2 ⟨⟨[2], [0], hout, by decide⟩, 1, rfl⟩
  have hin : T.lookup? 2 "x" = some 1 := ((hfind 2 (by decide) "x").2 1).2 ⟨1, hfound, rfl⟩
  have hbeside : T.lookup? 3 "x" = some 0 := by
    have hroot : T.find? 3 "x" = some 0 :=
      ((hfind 3 (by decide) "x").1 0).2 ⟨⟨[3], [], rfl, by decide⟩, 0, rfl⟩
    exact ((hfind 3 (by decide) "x").2 0).2 ⟨0, hroot, rfl⟩
  have hroot := (hdeclare 0 (by decide) x).2
  have houter := (hdeclare 1 (by decide) x).2
  have haside := (hdeclare 3 (by decide) x).2
  refine ⟨hout, ?_, hfound, hin, hbeside, ?_, ?_, ?_, ?_, ?_, ?_⟩
  · rw [← hlength, hout]
    rfl
  · rw [hroot 2 (by decide), if_neg (by decide), hin]
  · exact (hroot 3 (by decide) "x").trans (if_pos (by decide))
  · exact (houter 2 (by decide) "x").trans (if_pos (by decide))
  · rw [houter 3 (by decide), if_neg (by decide), hbeside]
  · rw [haside 2 (by decide), if_neg (by decide), hin]
  · rw [((hkeep 3 (by decide) "x").1 3 (by decide)).2, hbeside]

end TypeInference.ScopeTree
