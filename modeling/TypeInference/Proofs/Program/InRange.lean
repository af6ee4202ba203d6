import TypeInference.Proofs.Program.Placement

/-!
# Binding stays in range

`Program.Checkable`: a program in which no written type has a variable and every node is one that
the checker has a rule for. Binding it builds a tree whose parents are older than their children,
whose bindings are symbols of the tree and whose slots hold types without variables
(`ScopeTree.Sound`), and the stamps of every node are scopes and symbols of this tree
(`Node.InRange`, `Program.bind_inRange`).
-/

namespace TypeInference

open ScopeTree

/-! ## Programs that can be checked -/

/-- There is a rule for checking the node, which stands in the function `owner` if in any. -/
def Node.Supported (owner : Option String) : Node → Prop
  | .expr (.callValue ..) | .expr (.cast _ none _) => False
  | .stmt (.ret ..) => owner ≠ none
  | _ => True

/-- The types written in a node are free of variables, and there is a rule for it. -/
def checkable (owner : Option String) (n : Node) : Prop := n.TypesClosed ∧ n.Supported owner

instance (owner : Option String) : DecidablePred (Node.Supported owner)
  | .expr (.callValue ..) | .expr (.cast _ none _) => .isFalse id
  | .stmt (.ret ..) => inferInstanceAs (Decidable (owner ≠ none))
  | .expr (.literal ..) | .expr (.var ..) | .expr (.unary ..) | .expr (.binary ..)
  | .expr (.comparison ..) | .expr (.cond ..) | .expr (.deref ..) | .expr (.addressOf ..)
  | .expr (.alloc ..) | .expr (.block ..) | .expr (.call ..) | .expr (.structInit ..)
  | .expr (.field ..) | .expr (.cast _ (some _) _) | .stmt (.expr _) | .stmt (.typeDecl ..)
  | .stmt (.varDecl ..) | .stmt (.funDecl ..) | .stmt (.yield ..) | .stmt (.assign ..) =>
    .isTrue trivial

instance (owner : Option String) (n : Node) : Decidable (checkable owner n) :=
  inferInstanceAs (Decidable (_ ∧ _))

/-- No written type has a variable, no call has a computed callee, every cast has a target, and
every `return` stands in a function. -/
def Program.Checkable (P : Program Span) : Prop := Stmt.EveryAll checkable none P

instance (P : Program Span) : Decidable P.Checkable :=
  inferInstanceAs (Decidable (Stmt.EveryAll _ _ _))

/-! ## Sound trees -/

namespace ScopeTree

/-- A parent is older than its child, a name is bound to a symbol of the tree, and a slot holds a
type without variables if any. -/
structure Sound (T : ScopeTree) : Prop where
  parent : ∀ a p, T.parent? a = some p → p < a
  bindings : ∀ a name y, (T.bindings a).get? name = some y → y < T.symbols.size
  closed : T.SlotsClosed

section
variable {T : ScopeTree} {s : ScopeId}

theorem sound_initial : initial.Sound where
  parent a p h := by
    obtain ⟨c, hc, hp⟩ := Option.bind_eq_some_iff.1 h
    obtain ⟨ha, rfl⟩ := Array.getElem?_eq_some_iff.1 hc
    obtain rfl : a = 0 := Nat.lt_one_iff.1 ha
    cases hp
  bindings a name y h := by
    have he : initial.bindings a = ∅ := by
      unfold bindings
      cases hc : initial.scope? a with
      | none => rfl
      | some c =>
        obtain ⟨ha, rfl⟩ := Array.getElem?_eq_some_iff.1 hc
        obtain rfl : a = 0 := Nat.lt_one_iff.1 ha
        rfl
    rw [he] at h
    cases h
  closed y z σ h := by simp [initial, ScopeTree.symbol?] at h

theorem Sound.newScope (h : T.Sound) (hs : s < T.scopes.size) : (T.newScope s).2.Sound where
  parent a p hp := by
    rw [parent?_newScope] at hp
    split at hp
    · rename_i ha
      rw [ha, ← Option.some.inj hp]
      exact hs
    · exact h.parent a p hp
  bindings a name y hy := by
    rw [bindings_newScope] at hy
    split at hy
    · cases hy
    · exact h.bindings a name y hy
  closed := h.closed

theorem Sound.declare (h : T.Sound) (hs : s < T.scopes.size) {x : Symbol}
    (hx : ∀ σ, x.scheme = some σ → σ.vars = [] ∧ σ.ty.occurrences = []) :
    (T.declare s x).2.Sound where
  parent a p hp := h.parent a p (parent?_declare T s a x ▸ hp)
  bindings a name y hy := by
    rw [size_symbols_declare]
    by_cases ha : s = a
    · subst ha
      rw [bindings_declare hs] at hy
      by_cases hn : x.name = name
      · rw [hn, Assoc.get?_insert_self] at hy
        exact Nat.lt_succ_of_le (Nat.le_of_eq (Option.some.inj hy).symm)
      · rw [Assoc.get?_insert_of_ne _ hn] at hy
        exact Nat.lt_succ_of_lt (h.bindings s name y hy)
    · rw [bindings_declare_of_ne ha] at hy
      exact Nat.lt_succ_of_lt (h.bindings a name y hy)
  closed := h.closed.declare s hx

/-- What a name denotes is a symbol of the tree. -/
theorem Sound.lookup?_lt (h : T.Sound) {name : String} {y : SymbolId}
    (hy : T.lookup? s name = some y) : y < T.symbols.size := by
  obtain ⟨a, -, hy⟩ := Option.bind_eq_some_iff.1 hy
  exact h.bindings a name y hy

end

end ScopeTree

/-! ## Stamps in range -/

/-- The stamps of a node are among the first `m` scopes and `n` symbols, and there is a rule for
checking it. -/
def Node.InRange (m n : Nat) (owner : Option String) : Node → Prop
  | .expr (.var _ _ s y) => s < m ∧ ∀ x ∈ y, x < n
  | .expr (.alloc t _ _) => t.occurrences = []
  | .expr (.cast _ t _) => ∃ u, t = some u ∧ u.occurrences = []
  | .expr (.callValue ..) => False
  | .expr (.block _ _ _ s) | .expr (.call _ _ _ _ s) | .expr (.structInit _ _ _ s)
  | .expr (.field _ _ _ s) | .stmt (.typeDecl _ _ _ s) => s < m
  | .stmt (.varDecl _ _ _ _ s y) => s < m ∧ ∃ x, y = some x ∧ x < n
  | .stmt (.funDecl _ _ _ _ _ s s') => s < m ∧ s' < m
  | .stmt (.ret _ f _ s) => s < m ∧ f = owner ∧ owner ≠ none
  | _ => True

/-- Started in `T`, the step leaves a sound tree that is no smaller; the result is as `P` says if
`m` scopes and `n` symbols are enough for this tree. -/
structure Stamps (m n : Nat) (T : ScopeTree) {α : Type} (x : StateM ScopeTree α) (P : α → Prop) :
    Prop where
  sound : (x.run T).2.Sound
  scopes_le : T.scopes.size ≤ (x.run T).2.scopes.size
  symbols_le : T.symbols.size ≤ (x.run T).2.symbols.size
  post : (x.run T).2.scopes.size ≤ m → (x.run T).2.symbols.size ≤ n → P (x.run T).1

section
variable {m n : Nat} {T : ScopeTree} {s : ScopeId} {α β : Type}

theorem Stamps.bind {x : StateM ScopeTree α} {f : α → StateM ScopeTree β} {P : α → Prop}
    {Q : β → Prop} (hx : Stamps m n T x P) (hf : ∀ a T', T'.Sound →
      T.scopes.size ≤ T'.scopes.size → Stamps m n T' (f a) fun b => P a → Q b) :
    Stamps m n T (x >>= f) Q := by
  have h := hf (x.run T).1 (x.run T).2 hx.sound hx.scopes_le
  refine ⟨h.sound, Nat.le_trans hx.scopes_le h.scopes_le, Nat.le_trans hx.symbols_le h.symbols_le,
    fun hm hn => h.post hm hn (hx.post ?_ ?_)⟩
  · exact Nat.le_trans h.scopes_le hm
  · exact Nat.le_trans h.symbols_le hn

theorem Stamps.pure {a : α} {P : α → Prop} (h : T.Sound)
    (ha : T.scopes.size ≤ m → T.symbols.size ≤ n → P a) : Stamps m n T (Pure.pure a) P :=
  ⟨h, Nat.le_refl _, Nat.le_refl _, ha⟩

/-- A step that goes on with the result of another one. -/
theorem Stamps.map {x : StateM ScopeTree α} {g : α → β} {P : α → Prop} {Q : β → Prop}
    (hs : s < T.scopes.size) (hx : Stamps m n T x P) (hg : ∀ a, s < m → P a → Q (g a)) :
    Stamps m n T (do return g (← x)) Q :=
  hx.bind fun a _ h1 hle => .pure h1 fun hm _ ha =>
    hg a (Nat.lt_of_lt_of_le hs (Nat.le_trans hle hm)) ha

/-- A step in a new scope. -/
theorem Stamps.inside {f : ScopeId → StateM ScopeTree α} {P : α → Prop}
    (h : Stamps m n (T.newScope s).2 (f T.scopes.size) P) :
    Stamps m n T (do let inner ← modifyGet fun T => T.newScope s; f inner) P :=
  ⟨h.sound, Nat.le_trans (by simp) h.scopes_le, h.symbols_le, h.post⟩

theorem stamps_modify {f : ScopeTree → ScopeTree} (h : (f T).Sound)
    (hm : T.scopes.size ≤ (f T).scopes.size) (hn : T.symbols.size ≤ (f T).symbols.size) :
    Stamps m n T (modify f) fun _ => True :=
  ⟨h, hm, hn, fun _ _ => trivial⟩

theorem hoist_sound (h : T.Sound) (hs : s < T.scopes.size) {owner : Option String}
    {t : Stmt Span} (ht : Stmt.Every checkable owner t) :
    (hoist s T t).Sound ∧ T.scopes.size ≤ (hoist s T t).scopes.size ∧
      T.symbols.size ≤ (hoist s T t).symbols.size := by
  cases t with
  | funDecl x fs b t p s1 s2 =>
    refine ⟨h.declare hs (closed_mono ht.1.1), ?_, ?_⟩ <;> simp [hoist]
  | typeDecl x t p s1 =>
    refine ⟨h.declare hs (closed_mono (t := some (t.declaredAs x)) fun u hu => ?_), ?_, ?_⟩
    · cases hu
      rw [Ty.occurrences_declaredAs]
      exact ht.1
    · simp [hoist]
    · simp [hoist]
  | _ => exact ⟨h, Nat.le_refl _, Nat.le_refl _⟩

theorem hoistAll_sound {owner : Option String} : ∀ (ts : List (Stmt Span)) {T : ScopeTree},
    T.Sound → s < T.scopes.size → Stmt.EveryAll checkable owner ts →
    (hoistAll s ts T).Sound ∧ T.scopes.size ≤ (hoistAll s ts T).scopes.size ∧
      T.symbols.size ≤ (hoistAll s ts T).symbols.size
  | [], T, h, _, _ => ⟨h, Nat.le_refl _, Nat.le_refl _⟩
  | t :: ts, T, h, hs, ⟨ht, hts⟩ => by
    obtain ⟨h1, hm1, hn1⟩ := hoist_sound h hs ht
    obtain ⟨h2, hm2, hn2⟩ := hoistAll_sound ts h1 (Nat.lt_of_lt_of_le hs hm1) hts
    exact ⟨h2, Nat.le_trans hm1 hm2, Nat.le_trans hn1 hn2⟩

theorem declareFormals_sound : ∀ (fs : List (Formal Span)) {T : ScopeTree}, T.Sound →
    s < T.scopes.size → (declareFormals s fs T).Sound ∧
      T.scopes.size ≤ (declareFormals s fs T).scopes.size ∧
      T.symbols.size ≤ (declareFormals s fs T).symbols.size
  | [], T, h, _ => ⟨h, Nat.le_refl _, Nat.le_refl _⟩
  | f :: fs, T, h, hs => by
    have h1 : (declareFormal s T f).Sound := h.declare hs nofun
    have hm1 : T.scopes.size ≤ (declareFormal s T f).scopes.size := by simp [declareFormal]
    have hn1 : T.symbols.size ≤ (declareFormal s T f).symbols.size := by simp [declareFormal]
    obtain ⟨h2, hm2, hn2⟩ := declareFormals_sound fs h1 (Nat.lt_of_lt_of_le hs hm1)
    exact ⟨h2, Nat.le_trans hm1 hm2, Nat.le_trans hn1 hn2⟩

end

/-! ## The binder -/

section
variable {m n : Nat}
mutual

theorem Expr.bind_inRange : ∀ {owner : Option String} {s : Nat} {T : ScopeTree} (e : Expr Span),
    Expr.Every checkable owner e → T.Sound → s < T.scopes.size →
    Stamps m n T (Expr.bind owner s e) (Expr.Every (Node.InRange m n) owner)
  | owner, s, T, .literal v p, _, h, _ => by
    unfold Expr.bind
    exact .pure h fun _ _ => trivial
  | owner, s, T, .var x p s0 y, _, h, hs => by
    unfold Expr.bind
    refine ⟨h, Nat.le_refl _, Nat.le_refl _, fun hm hn => ⟨Nat.lt_of_lt_of_le hs hm, ?_⟩⟩
    exact fun y hy => Nat.lt_of_lt_of_le (h.lookup?_lt hy) hn
  | owner, s, T, .unary op e p, ⟨_, he⟩, h, hs | owner, s, T, .deref e p, ⟨_, he⟩, h, hs
  | owner, s, T, .addressOf e p, ⟨_, he⟩, h, hs => by
    unfold Expr.bind
    exact .map hs (Expr.bind_inRange e he h hs) fun _ _ he' => ⟨trivial, he'⟩
  | owner, s, T, .binary op l r p, ⟨_, hl, hr⟩, h, hs
  | owner, s, T, .comparison op l r p, ⟨_, hl, hr⟩, h, hs => by
    unfold Expr.bind
    refine (Expr.bind_inRange l hl h hs).bind fun l' T1 h1 hle1 => ?_
    have hs1 := Nat.lt_of_lt_of_le hs hle1
    exact .map hs1 (Expr.bind_inRange r hr h1 hs1) fun _ _ hr' hl' => ⟨trivial, hl', hr'⟩
  | owner, s, T, .cond c t e p, ⟨_, hc, ht, he⟩, h, hs => by
    unfold Expr.bind
    refine (Expr.bind_inRange c hc h hs).bind fun c' T1 h1 hle1 => ?_
    have hs1 := Nat.lt_of_lt_of_le hs hle1
    refine (Expr.bind_inRange t ht h1 hs1).bind fun t' T2 h2 hle2 => ?_
    have hs2 := Nat.lt_of_lt_of_le hs1 hle2
    exact .map hs2 (Expr.bindOpt_inRange e he h2 hs2) fun _ _ he' ht' hc' =>
      ⟨trivial, hc', ht', he'⟩
  | owner, s, T, .alloc t e p, ⟨ht, he⟩, h, hs => by
    unfold Expr.bind
    exact .map hs (Expr.bindOpt_inRange e he h hs) fun _ _ he' => ⟨ht.1, he'⟩
  | owner, s, T, .block b e p s0, ⟨_, hb, he⟩, h, hs => by
    unfold Expr.bind
    refine .inside ?_
    have hin : T.scopes.size < (T.newScope s).2.scopes.size := by simp
    obtain ⟨h1, hm1, hn1⟩ := hoistAll_sound b (h.newScope hs) hin hb
    refine (stamps_modify h1 hm1 hn1).bind fun _ T2 h2 hle2 => ?_
    have hs2 := Nat.lt_of_lt_of_le hin hle2
    refine (Stmt.bindAll_inRange b hb h2 hs2).bind fun b' T3 h3 hle3 => ?_
    have hs3 := Nat.lt_of_lt_of_le hs2 hle3
    exact .map hs3 (Expr.bindOpt_inRange e he h3 hs3) fun _ hs' he' hb' _ => ⟨hs', hb', he'⟩
  | owner, s, T, .call x q as p s0, ⟨_, has⟩, h, hs
  | owner, s, T, .structInit x as p s0, ⟨_, has⟩, h, hs => by
    unfold Expr.bind
    exact .map hs (Expr.bindAll_inRange as has h hs) fun _ hs' has' => ⟨hs', has'⟩
  | owner, s, T, .callValue c as p s0, ⟨hc, _⟩, h, hs => hc.2.elim
  | owner, s, T, .field e x p s0, ⟨_, he⟩, h, hs => by
    unfold Expr.bind
    exact .map hs (Expr.bind_inRange e he h hs) fun _ hs' he' => ⟨hs', he'⟩
  | owner, s, T, .cast e none p, ⟨ht, _⟩, h, hs => ht.2.elim
  | owner, s, T, .cast e (some t) p, ⟨ht, he⟩, h, hs => by
    unfold Expr.bind
    exact .map hs (Expr.bind_inRange e he h hs) fun _ _ he' => ⟨⟨t, rfl, ht.1⟩, he'⟩

theorem Expr.bindOpt_inRange : ∀ {owner : Option String} {s : Nat} {T : ScopeTree}
    (e : Option (Expr Span)), Expr.EveryOpt checkable owner e → T.Sound → s < T.scopes.size →
    Stamps m n T (Expr.bindOpt owner s e) (Expr.EveryOpt (Node.InRange m n) owner)
  | owner, s, T, none, _, h, _ => by
    unfold Expr.bindOpt
    exact .pure h fun _ _ => trivial
  | owner, s, T, some e, he, h, hs => by
    unfold Expr.bindOpt
    exact .map hs (Expr.bind_inRange e he h hs) fun _ _ he' => he'

theorem Expr.bindAll_inRange : ∀ {owner : Option String} {s : Nat} {T : ScopeTree}
    (es : List (Expr Span)), Expr.EveryAll checkable owner es → T.Sound → s < T.scopes.size →
    Stamps m n T (Expr.bindAll owner s es) (Expr.EveryAll (Node.InRange m n) owner)
  | owner, s, T, [], _, h, _ => by
    unfold Expr.bindAll
    exact .pure h fun _ _ => trivial
  | owner, s, T, e :: es, ⟨he, hes⟩, h, hs => by
    unfold Expr.bindAll
    refine (Expr.bind_inRange e he h hs).bind fun e' T1 h1 hle1 => ?_
    have hs1 := Nat.lt_of_lt_of_le hs hle1
    exact .map hs1 (Expr.bindAll_inRange es hes h1 hs1) fun _ _ hes' he' => ⟨he', hes'⟩

theorem Stmt.bind_inRange : ∀ {owner : Option String} {s : Nat} {T : ScopeTree} (t : Stmt Span),
    Stmt.Every checkable owner t → T.Sound → s < T.scopes.size →
    Stamps m n T (Stmt.bind owner s t) (Stmt.Every (Node.InRange m n) owner)
  | owner, s, T, .expr e, ⟨_, he⟩, h, hs | owner, s, T, .yield e p, ⟨_, he⟩, h, hs => by
    unfold Stmt.bind
    exact .map hs (Expr.bind_inRange e he h hs) fun _ _ he' => ⟨trivial, he'⟩
  | owner, s, T, .typeDecl x t p s0, _, h, hs => by
    unfold Stmt.bind
    exact .pure h fun hm _ => Nat.lt_of_lt_of_le hs hm
  | owner, s, T, .varDecl x t e p s0 y, ⟨ht, he⟩, h, hs => by
    unfold Stmt.bind
    refine (Expr.bind_inRange e he h hs).bind fun e' T1 h1 hle1 => ?_
    have hs1 := Nat.lt_of_lt_of_le hs hle1
    refine ⟨h1.declare hs1 (closed_mono ht.1), ?_, ?_, fun hm hn he' => ⟨⟨?_, _, rfl, ?_⟩, he'⟩⟩
    · exact Nat.le_of_eq (size_scopes_declare ..).symm
    · exact Nat.le_trans (Nat.le_succ _) (Nat.le_of_eq (size_symbols_declare ..).symm)
    · exact Nat.lt_of_lt_of_le (Nat.lt_of_lt_of_eq hs1 (size_scopes_declare ..).symm) hm
    · exact Nat.lt_of_lt_of_le
        (Nat.lt_of_lt_of_eq (Nat.lt_succ_self _) (size_symbols_declare ..).symm) hn
  | owner, s, T, .funDecl x fs b t p s0 s1, ⟨_, hb⟩, h, hs => by
    unfold Stmt.bind
    refine .inside ?_
    have hin : T.scopes.size < (T.newScope s).2.scopes.size := by simp
    obtain ⟨h1, hm1, hn1⟩ := declareFormals_sound fs (h.newScope hs) hin
    refine (stamps_modify h1 hm1 hn1).bind fun _ T2 h2 hle2 => ?_
    have hs2 := Nat.lt_of_lt_of_le hin hle2
    exact .map hs2 (Expr.bindOpt_inRange b hb h2 hs2) fun _ hs' hb' _ =>
      ⟨⟨Nat.lt_trans hs hs', hs'⟩, hb'⟩
  | owner, s, T, .ret e f p s0, ⟨hr, he⟩, h, hs => by
    unfold Stmt.bind
    exact .map hs (Expr.bind_inRange e he h hs) fun _ hs' he' => ⟨⟨hs', rfl, hr.2⟩, he'⟩
  | owner, s, T, .assign l r p, ⟨_, hl, hr⟩, h, hs => by
    unfold Stmt.bind
    refine (Expr.bind_inRange l hl h hs).bind fun l' T1 h1 hle1 => ?_
    have hs1 := Nat.lt_of_lt_of_le hs hle1
    exact .map hs1 (Expr.bind_inRange r hr h1 hs1) fun _ _ hr' hl' => ⟨trivial, hl', hr'⟩

theorem Stmt.bindAll_inRange : ∀ {owner : Option String} {s : Nat} {T : ScopeTree}
    (ts : List (Stmt Span)), Stmt.EveryAll checkable owner ts → T.Sound → s < T.scopes.size →
    Stamps m n T (Stmt.bindAll owner s ts) (Stmt.EveryAll (Node.InRange m n) owner)
  | owner, s, T, [], _, h, _ => by
    unfold Stmt.bindAll
    exact .pure h fun _ _ => trivial
  | owner, s, T, t :: ts, ⟨ht, hts⟩, h, hs => by
    unfold Stmt.bindAll
    refine (Stmt.bind_inRange t ht h hs).bind fun t' T1 h1 hle1 => ?_
    have hs1 := Nat.lt_of_lt_of_le hs hle1
    exact .map hs1 (Stmt.bindAll_inRange ts hts h1 hs1) fun _ _ hts' ht' => ⟨ht', hts'⟩

end

end

/-- Binding a program that can be checked builds a sound tree and stamps every node with scopes and
symbols of it. -/
theorem Program.bind_inRange {P : Program Span} (hP : P.Checkable) : P.bind.2.Sound ∧
    Stmt.EveryAll (Node.InRange P.bind.2.scopes.size P.bind.2.symbols.size) none P.bind.1 := by
  obtain ⟨h, hm, -⟩ := hoistAll_sound P sound_initial Nat.one_pos hP
  have hb := fun m n => Stmt.bindAll_inRange (m := m) (n := n) P hP h
    (Nat.lt_of_lt_of_le Nat.one_pos hm)
  exact ⟨(hb 0 0).sound, (hb _ _).post (Nat.le_refl _) (Nat.le_refl _)⟩

end TypeInference
