import TypeInference.ScopeTree

/-!
# Regions of a tree of scopes

`T.Agrees kept T'`: `T'` has all scopes and symbols of `T`, the scopes in `kept` as they were. A
`Region` is an interval of scopes that hang below each other or below the root and bind symbols of
one interval only; so a name looked up in it denotes a symbol of that interval or one bound in the
root scope (`Region.lookup`).
-/

namespace TypeInference.ScopeTree

/-! ## Single operations -/

section
variable (T : ScopeTree) (s a : ScopeId) (x : Symbol) (y : SymbolId)

theorem scope?_newScope : (T.newScope s).2.scope? a =
    if a = T.scopes.size then some ⟨some s, T.level s + 1, ∅⟩ else T.scope? a := by
  simp only [newScope, scope?, Array.getElem?_push]

@[simp] theorem symbol?_newScope : (T.newScope s).2.symbol? y = T.symbol? y := rfl

@[simp] theorem size_scopes_newScope : (T.newScope s).2.scopes.size = T.scopes.size + 1 := by
  simp [newScope]

theorem scope?_declare : (T.declare s x).2.scope? a = if s = a then (T.scope? a).map fun c =>
    { c with bindings := c.bindings.insert x.name T.symbols.size } else T.scope? a := by
  simp only [declare, scope?, Array.getElem?_modify]

theorem symbol?_declare : (T.declare s x).2.symbol? y =
    if y = T.symbols.size then some x else T.symbol? y := by
  simp only [declare, symbol?, Array.getElem?_push]

@[simp] theorem size_symbols_declare : (T.declare s x).2.symbols.size = T.symbols.size + 1 := by
  simp [declare]

theorem parent?_newScope : (T.newScope s).2.parent? a =
    if a = T.scopes.size then some s else T.parent? a := by
  rw [parent?, scope?_newScope]
  split <;> rfl

theorem level_newScope : (T.newScope s).2.level a =
    if a = T.scopes.size then T.level s + 1 else T.level a := by
  rw [level, scope?_newScope]
  split <;> rfl

theorem bindings_newScope : (T.newScope s).2.bindings a =
    if a = T.scopes.size then ∅ else T.bindings a := by
  rw [bindings, scope?_newScope]
  split <;> rfl

@[simp] theorem parent?_declare : (T.declare s x).2.parent? a = T.parent? a := by
  rw [parent?, scope?_declare, parent?]
  split <;> cases T.scope? a <;> rfl

@[simp] theorem level_declare : (T.declare s x).2.level a = T.level a := by
  rw [level, scope?_declare, level]
  split <;> cases T.scope? a <;> rfl

theorem bindings_declare_of_ne {T : ScopeTree} {s a : ScopeId} (h : s ≠ a) (x : Symbol) :
    (T.declare s x).2.bindings a = T.bindings a := by
  rw [bindings, scope?_declare, if_neg h, bindings]

theorem symbol?_setScheme (z : SymbolId) (σ : Scheme) : (T.setScheme z σ).symbol? y =
    if z = y then (T.symbol? y).map fun x => { x with scheme := some σ } else T.symbol? y := by
  simp only [setScheme, symbol?, Array.getElem?_modify]

theorem scheme?_setScheme (z : SymbolId) (σ : Scheme) : (T.setScheme z σ).scheme? y =
    if z = y then (T.symbol? y).map fun _ => σ else T.scheme? y := by
  rw [scheme?, symbol?_setScheme]
  split
  · cases T.symbol? y <;> rfl
  · rfl

variable {T a}

theorem scheme?_setScheme_of_symbol {z : SymbolId} {x : Symbol} (hz : T.symbol? z = some x)
    (σ : Scheme) (y : SymbolId) :
    (T.setScheme z σ).scheme? y = if z = y then some σ else T.scheme? y := by
  rw [scheme?_setScheme]
  split
  · rename_i hzy
    rw [← hzy, hz, Option.map_some]
  · rfl

theorem lt_of_scope? {c : Scope} (h : T.scope? a = some c) : a < T.scopes.size :=
  (Array.getElem?_eq_some_iff.1 h).1

theorem exists_scope? (h : a < T.scopes.size) : ∃ c, T.scope? a = some c :=
  ⟨_, Array.getElem?_eq_getElem h⟩

theorem lt_of_symbol? {y : SymbolId} {z : Symbol} (h : T.symbol? y = some z) :
    y < T.symbols.size :=
  (Array.getElem?_eq_some_iff.1 h).1

theorem lt_of_requireScope {c : Scope} (h : T.requireScope a = .ok c) : a < T.scopes.size := by
  unfold requireScope at h
  split at h
  · exact lt_of_scope? ‹_›
  · cases h

theorem lt_of_requireSymbol {y : SymbolId} {z : Symbol} (h : T.requireSymbol y = .ok z) :
    y < T.symbols.size := by
  unfold requireSymbol at h
  split at h
  · exact lt_of_symbol? ‹_›
  · cases h

theorem bindings_declare {s : ScopeId} (hs : s < T.scopes.size) (z : Symbol) :
    (T.declare s z).2.bindings s = (T.bindings s).insert z.name T.symbols.size := by
  obtain ⟨c, hc⟩ := exists_scope? hs
  rw [bindings, scope?_declare, if_pos rfl, bindings, hc]
  rfl

end

/-! ## Look-up -/

section
variable {T T' : ScopeTree} {s : Nat} {name : String} {y : SymbolId}

/-- Look-up reads scopes only. -/
theorem find?_congr (h : T'.scopes = T.scopes) (s : ScopeId) (name : String) :
    T'.find? s name = T.find? s name := by
  have hp : T'.parent? = T.parent? := by funext s; simp only [parent?, scope?, h]
  have ha : ∀ n s, T'.ancestorsFrom n s = T.ancestorsFrom n s := fun n => by
    induction n with
    | zero => exact fun _ => rfl
    | succ n ih => intro s; simp only [ancestorsFrom, hp, ih]
  simp only [find?, ancestors, ha, bindings, scope?, h]

theorem lookup?_congr (h : T'.scopes = T.scopes) (s : ScopeId) (name : String) :
    T'.lookup? s name = T.lookup? s name := by
  simp only [lookup?, find?_congr h, bindings, scope?, h]

/-- A name that a scope binds itself denotes there what it is bound to. -/
theorem lookup?_of_bindings (hs : s < T.scopes.size) (hy : (T.bindings s).get? name = some y) :
    T.lookup? s name = some y := by
  have hc : (T.bindings s).contains name = true := by simp [Assoc.contains, hy]
  obtain ⟨k, hk⟩ := Nat.exists_eq_succ_of_ne_zero (Nat.ne_zero_of_lt hs)
  have ha : ∃ as, T.ancestors s = s :: as := by
    rw [ancestors, hk, ancestorsFrom]
    split <;> exact ⟨_, rfl⟩
  obtain ⟨as, ha⟩ := ha
  simp only [lookup?, find?, ha, List.find?_cons, hc, Option.bind_some, hy]

theorem lt_of_bindings (hy : (T.bindings s).get? name = some y) : s < T.scopes.size := by
  refine Classical.byContradiction fun hn => ?_
  rw [bindings, scope?, Array.getElem?_eq_none (Nat.not_lt.1 hn)] at hy
  cases hy

/-- A name is found in a scope that binds it. -/
theorem exists_of_find? {home : ScopeId} (hf : T.find? s name = some home) :
    ∃ y, (T.bindings home).get? name = some y := by
  have hc := List.find?_some hf
  exact Option.isSome_iff_exists.1 hc

/-- A name denotes in a scope what it denotes where it is found. -/
theorem lookup?_of_find? {home : ScopeId} (hf : T.find? s name = some home) :
    T.lookup? home name = T.lookup? s name := by
  obtain ⟨y, hy⟩ := exists_of_find? hf
  rw [lookup?_of_bindings (lt_of_bindings hy) hy, lookup?, hf, Option.bind_some, hy]

end

/-! ## Agreement -/

/-- `T'` has what `T` has (module doc). -/
structure Agrees (kept : ScopeId → Prop) (T T' : ScopeTree) : Prop where
  scopes_le : T.scopes.size ≤ T'.scopes.size
  symbols_le : T.symbols.size ≤ T'.symbols.size
  scope : ∀ a < T.scopes.size, kept a → T'.scope? a = T.scope? a
  symbol : ∀ y < T.symbols.size, T'.symbol? y = T.symbol? y

section
variable {kept kept' : ScopeId → Prop} {T T' T'' : ScopeTree}

theorem Agrees.refl (T : ScopeTree) : Agrees kept T T :=
  ⟨Nat.le_refl _, Nat.le_refl _, fun _ _ _ => rfl, fun _ _ => rfl⟩

theorem Agrees.trans (h : Agrees kept T T') (h' : Agrees kept T' T'') : Agrees kept T T'' where
  scopes_le := Nat.le_trans h.scopes_le h'.scopes_le
  symbols_le := Nat.le_trans h.symbols_le h'.symbols_le
  scope a ha hk := (h'.scope a (Nat.lt_of_lt_of_le ha h.scopes_le) hk).trans (h.scope a ha hk)
  symbol y hy := (h'.symbol y (Nat.lt_of_lt_of_le hy h.symbols_le)).trans (h.symbol y hy)

theorem Agrees.mono (h : Agrees kept T T') (hk : ∀ a, kept' a → kept a) : Agrees kept' T T' :=
  ⟨h.scopes_le, h.symbols_le, fun a ha hk' => h.scope a ha (hk a hk'), h.symbol⟩

theorem Agrees.symbol? (h : Agrees kept T T') {y : SymbolId} {z : Symbol}
    (hy : T.symbol? y = some z) : T'.symbol? y = some z := by
  rw [h.symbol y (lt_of_symbol? hy), hy]

theorem agrees_newScope (T : ScopeTree) (s : ScopeId) : Agrees kept T (T.newScope s).2 where
  scopes_le := by simp
  symbols_le := by simp
  scope a ha _ := by rw [scope?_newScope, if_neg (Nat.ne_of_lt ha)]
  symbol _ _ := rfl

theorem agrees_declare (T : ScopeTree) {s : ScopeId} (x : Symbol) (hs : ¬ kept s) :
    Agrees kept T (T.declare s x).2 where
  scopes_le := by simp
  symbols_le := by simp
  scope a _ hk := by rw [scope?_declare, if_neg fun he : s = a => hs (he ▸ hk)]
  symbol y hy := by rw [symbol?_declare, if_neg (Nat.ne_of_lt hy)]

end

/-! ## Regions -/

/-- The scopes from `m` to before `m'` and the symbols from `n` to before `n'` (module doc). -/
structure Region (T : ScopeTree) (m m' n n' : Nat) : Prop where
  parent : ∀ (a : Nat) c, m ≤ a → a < m' → T.scope? a = some c →
    ∃ p : Nat, c.parent = some p ∧ (p = rootScope ∨ m ≤ p) ∧ p < a
  level : ∀ (a : Nat) c, m ≤ a → a < m' → T.scope? a = some c → 2 ≤ c.level
  bindings : ∀ (a : Nat) c, m ≤ a → a < m' → T.scope? a = some c →
    ∀ name (y : Nat), c.bindings.get? name = some y → n ≤ y ∧ y < n'

section
variable {T T' : ScopeTree} {m m' n n' : Nat}

theorem Region.empty (T : ScopeTree) (m n n' : Nat) : Region T m m n n' :=
  ⟨fun _ _ h h' => absurd h (Nat.not_le.2 h'), fun _ _ h h' => absurd h (Nat.not_le.2 h'),
    fun _ _ h h' => absurd h (Nat.not_le.2 h')⟩

/-- Every scope on the way from a region to the root is in the region or the root. -/
theorem Region.ancestors (h : Region T m m' n n') (hroot : T.parent? rootScope = none) {a : Nat} :
    ∀ (k : Nat) {s : Nat}, s = rootScope ∨ (m ≤ s ∧ s < m') → a ∈ T.ancestorsFrom k s →
      a = rootScope ∨ (m ≤ a ∧ a < m')
  | 0, s, _, ha => nomatch ha
  | k + 1, s, hs, ha => by
    unfold ancestorsFrom at ha
    cases hp : T.parent? s with
    | none =>
      rw [hp] at ha
      rwa [List.mem_singleton.1 ha]
    | some p =>
      rw [hp] at ha
      rcases List.mem_cons.1 ha with rfl | ha
      · exact hs
      · refine h.ancestors hroot k ?_ ha
        obtain rfl | ⟨hm, hm'⟩ := hs
        · rw [hroot] at hp
          cases hp
        · obtain ⟨c, hc, hcp⟩ := Option.bind_eq_some_iff.1 hp
          obtain ⟨p', hp', hr, hlt⟩ := h.parent s c hm hm' hc
          obtain rfl : p' = p := Option.some.inj (hp'.symm.trans hcp)
          exact hr.imp_right fun hmp => ⟨hmp, Nat.lt_trans hlt hm'⟩

/-- What a name denotes in a region is bound in the root scope or a symbol of the region. -/
theorem Region.lookup (h : Region T m m' n n') (hroot : T.parent? rootScope = none) {s : Nat}
    (hs : s = rootScope ∨ (m ≤ s ∧ s < m')) {name : String} {y : Nat}
    (hy : T.lookup? s name = some y) :
    (T.bindings rootScope).get? name = some y ∨ (n ≤ y ∧ y < n') := by
  obtain ⟨a, ha, hy⟩ := Option.bind_eq_some_iff.1 hy
  have hm := List.mem_of_find?_eq_some ha
  obtain rfl | ⟨hm, hm'⟩ := h.ancestors hroot _ hs hm
  · exact .inl hy
  · unfold ScopeTree.bindings at hy
    cases hc : T.scope? a with
    | none =>
      rw [hc] at hy
      cases hy
    | some c =>
      rw [hc] at hy
      exact .inr (h.bindings a c hm hm' hc name y hy)

/-- A name denotes in the root scope what it is bound to there. -/
theorem bindings_of_lookup?_root (hroot : T.parent? rootScope = none) {name : String} {y : SymbolId}
    (hy : T.lookup? rootScope name = some y) : (T.bindings rootScope).get? name = some y :=
  ((Region.empty T 0 0 0).lookup hroot (.inl rfl) hy).resolve_right fun h => Nat.not_lt_zero _ h.2

/-- A region is one of every tree that keeps its scopes. -/
theorem Region.agrees (h : Region T m m' n n') (hm : m' ≤ T.scopes.size)
    (ha : Agrees (fun a => m ≤ a) T T') : Region T' m m' n n' := by
  have hscope : ∀ a, m ≤ a → a < m' → T'.scope? a = T.scope? a := fun a h1 h2 =>
    ha.scope a (Nat.lt_of_lt_of_le h2 hm) h1
  exact ⟨fun a c h1 h2 hc => h.parent a c h1 h2 (hscope a h1 h2 ▸ hc),
    fun a c h1 h2 hc => h.level a c h1 h2 (hscope a h1 h2 ▸ hc),
    fun a c h1 h2 hc => h.bindings a c h1 h2 (hscope a h1 h2 ▸ hc)⟩

/-- A scope opened in the region or in the root scope. -/
theorem Region.newScope (h : Region T m T.scopes.size n n') {s : Nat}
    (hs : s = rootScope ∨ m ≤ s) (hlt : s < T.scopes.size) (hl : 1 ≤ T.level s) :
    Region (T.newScope s).2 m (T.newScope s).2.scopes.size n n' := by
  rw [size_scopes_newScope]
  have hlt' : ∀ {a : Nat}, a < T.scopes.size + 1 → ¬ a = T.scopes.size → a < T.scopes.size :=
    fun h hne => Nat.lt_of_le_of_ne (Nat.le_of_lt_succ h) hne
  refine ⟨fun a c h1 h2 hc => ?_, fun a c h1 h2 hc => ?_, fun a c h1 h2 hc => ?_⟩ <;>
    rw [scope?_newScope] at hc <;> split at hc <;> rename_i he
  · cases hc
    exact ⟨s, rfl, hs, he ▸ hlt⟩
  · exact h.parent a c h1 (hlt' h2 he) hc
  · cases hc
    exact Nat.succ_le_succ hl
  · exact h.level a c h1 (hlt' h2 he) hc
  · cases hc
    exact nofun
  · exact h.bindings a c h1 (hlt' h2 he) hc

/-- A name declared in the region. -/
theorem Region.declare (h : Region T m m' n T.symbols.size) (hn : n ≤ T.symbols.size) (s : ScopeId)
    (x : Symbol) : Region (T.declare s x).2 m m' n (T.declare s x).2.symbols.size := by
  rw [size_symbols_declare]
  have hold : ∀ a c, (T.declare s x).2.scope? a = some c → ∃ c', T.scope? a = some c' ∧
      c.parent = c'.parent ∧ c.level = c'.level ∧ ∀ name (y : Nat), c.bindings.get? name = some y →
        c'.bindings.get? name = some y ∨ y = T.symbols.size := by
    intro a c hc
    rw [scope?_declare] at hc
    split at hc
    · obtain ⟨c', hc', rfl⟩ := Option.map_eq_some_iff.1 hc
      refine ⟨c', hc', rfl, rfl, fun name y hy => ?_⟩
      dsimp only at hy
      by_cases hn : x.name = name
      · subst hn
        rw [Assoc.get?_insert_self] at hy
        exact .inr (Option.some.inj hy).symm
      · rw [Assoc.get?_insert_of_ne _ hn] at hy
        exact .inl hy
    · exact ⟨c, hc, rfl, rfl, fun _ _ => .inl⟩
  refine ⟨fun a c h1 h2 hc => ?_, fun a c h1 h2 hc => ?_, fun a c h1 h2 hc name y hy => ?_⟩ <;>
    obtain ⟨c', hc', hp, hl, hb⟩ := hold a c hc
  · rw [hp]
    exact h.parent a c' h1 h2 hc'
  · rw [hl]
    exact h.level a c' h1 h2 hc'
  · rcases hb name y hy with hy | rfl
    · have := h.bindings a c' h1 h2 hc' name y hy
      omega
    · omega

end

end TypeInference.ScopeTree
