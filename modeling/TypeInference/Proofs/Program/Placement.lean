import TypeInference.Program.Binding
import TypeInference.Proofs.Check.Nodes
import TypeInference.Proofs.Program.Regions

/-!
# Where binding places the nodes of a statement

A statement of the root scope is bound into a tree `B`: the scopes and symbols that it needs form a
region below the root of `B` (`Below`), and all that its nodes are stamped with lies in this region
or was bound in the root scope (`Placed`). `Expr.bind_placed` and `Stmt.bind_placed` show so by
induction on the syntax; `Binds` says what one step of binding does to the tree and what later trees
see of its result.
-/

namespace TypeInference

open ScopeTree

/-- The types written in a node are free of variables. -/
def Node.TypesClosed : Node → Prop
  | .expr (.alloc t _ _) | .expr (.cast _ (some t) _) | .stmt (.typeDecl _ t _ _) =>
    t.occurrences = []
  | .stmt (.varDecl _ t _ _ _ _) | .stmt (.funDecl _ _ _ t _ _ _) => ∀ u ∈ t, u.occurrences = []
  | _ => True

instance : DecidablePred Node.TypesClosed
  | .expr (.alloc t _ _) | .expr (.cast _ (some t) _) | .stmt (.typeDecl _ t _ _) =>
    inferInstanceAs (Decidable (t.occurrences = []))
  | .stmt (.varDecl _ t _ _ _ _) | .stmt (.funDecl _ _ _ t _ _ _) =>
    inferInstanceAs (Decidable (∀ u ∈ t, u.occurrences = []))
  | .expr (.literal ..) | .expr (.var ..) | .expr (.unary ..) | .expr (.binary ..)
  | .expr (.comparison ..) | .expr (.cond ..) | .expr (.deref ..) | .expr (.addressOf ..)
  | .expr (.block ..) | .expr (.call ..) | .expr (.callValue ..) | .expr (.structInit ..)
  | .expr (.field ..) | .expr (.cast _ none _) | .stmt (.expr _) | .stmt (.ret ..)
  | .stmt (.yield ..) | .stmt (.assign ..) => .isTrue trivial

theorem Ty.occurrences_declaredAs (name : String) (t : Ty) :
    (t.declaredAs name).occurrences = t.occurrences := by
  unfold declaredAs
  split <;> rfl

/-! ## Trees with a region below the root -/

namespace ScopeTree

/-- Every slot is empty or holds a type without variables. -/
def SlotsClosed (T : ScopeTree) : Prop :=
  ∀ y z σ, T.symbol? y = some z → z.scheme = some σ → σ.vars = [] ∧ σ.ty.occurrences = []

/-- `T` is `B` with a region below its root. -/
structure Below (B T : ScopeTree) : Prop where
  root : ∃ c, B.scope? rootScope = some c ∧ c.parent = none ∧ c.level = 1
  agrees : Agrees (fun _ => True) B T
  region : Region T B.scopes.size T.scopes.size B.symbols.size T.symbols.size
  closed : T.SlotsClosed

/-- A scope of the region, or the root. -/
structure Inside (B T : ScopeTree) (s : Nat) : Prop where
  lt : s < T.scopes.size
  below : s = rootScope ∨ B.scopes.size ≤ s

section
variable {B T T' : ScopeTree} {s : Nat} {kept : ScopeId → Prop}

theorem Inside.mono (h : Inside B T s) (ha : Agrees kept T T') : Inside B T' s :=
  ⟨Nat.lt_of_lt_of_le h.lt ha.scopes_le, h.below⟩

theorem Below.scope?_root (h : Below B T) :
    ∃ c, T.scope? rootScope = some c ∧ c.parent = none ∧ c.level = 1 := by
  obtain ⟨c, hc, hp, hl⟩ := h.root
  exact ⟨c, by rw [h.agrees.scope _ (lt_of_scope? hc) trivial, hc], hp, hl⟩

theorem Below.parent?_root (h : Below B T) : T.parent? rootScope = none := by
  obtain ⟨c, hc, hp, -⟩ := h.scope?_root
  rw [parent?, hc, Option.bind_some, hp]

theorem Below.bindings_root (h : Below B T) : T.bindings rootScope = B.bindings rootScope := by
  obtain ⟨c, hc, -⟩ := h.root
  rw [bindings, bindings, h.agrees.scope _ (lt_of_scope? hc) trivial]

theorem Below.one_le_level (h : Below B T) (hs : Inside B T s) : 1 ≤ T.level s := by
  obtain ⟨c, hc⟩ := exists_scope? hs.lt
  rw [ScopeTree.level, hc, Option.map_some, Option.getD_some]
  rcases hs.below with rfl | hm
  · obtain ⟨c', hc', -, hl⟩ := h.scope?_root
    obtain rfl : c = c' := Option.some.inj (hc.symm.trans hc')
    exact Nat.le_of_eq hl.symm
  · exact Nat.le_of_succ_le (h.region.level s c hm hs.lt hc)

/-- A name denotes what the root scope of the base binds, or a symbol of the region. -/
theorem Below.lookup (h : Below B T) (hs : Inside B T s) {name : String} {y : Nat}
    (hy : T.lookup? s name = some y) : (B.bindings rootScope).get? name = some y ∨
      (B.symbols.size ≤ y ∧ y < T.symbols.size) := by
  rw [← h.bindings_root]
  exact h.region.lookup h.parent?_root (hs.below.imp_right fun hm => ⟨hm, hs.lt⟩) hy

theorem Below.newScope (h : Below B T) (hs : Inside B T s) : Below B (T.newScope s).2 where
  root := h.root
  agrees := h.agrees.trans (agrees_newScope T s)
  region := h.region.newScope hs.below hs.lt (h.one_le_level hs)
  closed := h.closed

theorem SlotsClosed.declare (h : T.SlotsClosed) (s : ScopeId) {x : Symbol}
    (hx : ∀ σ, x.scheme = some σ → σ.vars = [] ∧ σ.ty.occurrences = []) :
    (T.declare s x).2.SlotsClosed := fun y z σ hy hσ => by
  rw [symbol?_declare] at hy
  split at hy
  · cases hy
    exact hx σ hσ
  · exact h y z σ hy hσ

theorem Below.declare (h : Below B T) (hm : B.scopes.size ≤ s) {x : Symbol}
    (hx : ∀ σ, x.scheme = some σ → σ.vars = [] ∧ σ.ty.occurrences = []) :
    Below B (T.declare s x).2 where
  root := h.root
  agrees := by
    refine ⟨by simpa using h.agrees.scopes_le, ?_, fun a ha _ => ?_, fun y hy => ?_⟩
    · rw [size_symbols_declare]
      exact Nat.le_succ_of_le h.agrees.symbols_le
    · rw [scope?_declare, if_neg fun he : s = a => Nat.not_lt.2 hm (he ▸ ha),
        h.agrees.scope a ha trivial]
    · rw [symbol?_declare, if_neg (Nat.ne_of_lt (Nat.lt_of_lt_of_le hy h.agrees.symbols_le)),
        h.agrees.symbol y hy]
  region := by
    have := h.region.declare h.agrees.symbols_le s x
    rwa [← size_scopes_declare T s x] at this
  closed := h.closed.declare s hx

/-! ## Functions, types and formals -/

theorem closed_mono {t : Option Ty} (ht : ∀ u ∈ t, u.occurrences = []) :
    ∀ σ, t.map Scheme.mono = some σ → σ.vars = [] ∧ σ.ty.occurrences = [] := by
  intro σ hσ
  obtain ⟨u, hu, rfl⟩ := Option.map_eq_some_iff.1 hσ
  exact ⟨rfl, ht u hu⟩

theorem hoist_below (h : Below B T) (hm : B.scopes.size ≤ s) {owner : Option String} {t : Stmt Span}
    (ht : Stmt.Every (fun _ n => n.TypesClosed) owner t) :
    Below B (hoist s T t) ∧ Agrees (fun a => a ≠ s) T (hoist s T t) := by
  cases t with
  | funDecl x fs b t p s1 s2 =>
    exact ⟨h.declare hm (closed_mono ht.1), agrees_declare T _ (· rfl)⟩
  | typeDecl x t p s1 =>
    refine ⟨h.declare hm (closed_mono (t := some (t.declaredAs x)) fun u hu => ?_),
      agrees_declare T _ (· rfl)⟩
    cases hu
    rw [Ty.occurrences_declaredAs]
    exact ht
  | _ => exact ⟨h, .refl T⟩

theorem hoistAll_below {owner : Option String} (hm : B.scopes.size ≤ s) :
    ∀ (ts : List (Stmt Span)) {T : ScopeTree}, Below B T →
      Stmt.EveryAll (fun _ n => n.TypesClosed) owner ts →
      Below B (hoistAll s ts T) ∧ Agrees (fun a => a ≠ s) T (hoistAll s ts T)
  | [], T, h, _ => ⟨h, .refl T⟩
  | t :: ts, T, h, ⟨ht, hts⟩ => by
    obtain ⟨h1, ha1⟩ := hoist_below h hm ht
    obtain ⟨h2, ha2⟩ := hoistAll_below hm ts h1 hts
    exact ⟨h2, ha1.trans ha2⟩

/-- In `s` itself the name is that of a formal. -/
def BindsFormal (T : ScopeTree) (s : ScopeId) (name : String) : Prop :=
  ∃ y z, (T.bindings s).get? name = some y ∧ T.symbol? y = some z ∧ z.kind = .param

theorem bindsFormal_declareFormal (hs : s < T.scopes.size) (f : Formal Span) {name : String}
    (hn : f.name = name ∨ T.BindsFormal s name) : (declareFormal s T f).BindsFormal s name := by
  obtain ⟨c, hc⟩ := exists_scope? hs
  have hb : (declareFormal s T f).bindings s = (T.bindings s).insert f.name T.symbols.size := by
    rw [declareFormal, bindings, scope?_declare, if_pos rfl, bindings, hc]
    rfl
  by_cases he : f.name = name
  · subst he
    refine ⟨T.symbols.size, ⟨f.name, .param, f.pos, none⟩, ?_, ?_, rfl⟩
    · rw [hb, Assoc.get?_insert_self]
    · rw [declareFormal, symbol?_declare, if_pos rfl]
  · obtain ⟨y, z, hy, hz, hk⟩ := hn.resolve_left he
    refine ⟨y, z, ?_, ?_, hk⟩
    · rw [hb, Assoc.get?_insert_of_ne _ he, hy]
    · rw [declareFormal, symbol?_declare, if_neg (Nat.ne_of_lt (lt_of_symbol? hz)), hz]

theorem declareFormals_below (hm : B.scopes.size ≤ s) : ∀ (fs : List (Formal Span)) {T : ScopeTree},
    s < T.scopes.size → Below B T → Below B (declareFormals s fs T) ∧
      Agrees (fun a => a ≠ s) T (declareFormals s fs T) ∧
      ∀ name, (∃ f ∈ fs, f.name = name) ∨ T.BindsFormal s name →
        (declareFormals s fs T).BindsFormal s name
  | [], T, _, h => ⟨h, .refl T, fun _ hn => hn.resolve_left fun ⟨_, hf, _⟩ => nomatch hf⟩
  | f :: fs, T, hs, h => by
    have h1 : Below B (declareFormal s T f) := h.declare hm nofun
    have ha1 : Agrees (fun a => a ≠ s) T (declareFormal s T f) := agrees_declare T _ (· rfl)
    obtain ⟨h2, ha2, hb⟩ := declareFormals_below hm fs (Nat.lt_of_lt_of_le hs ha1.scopes_le) h1
    refine ⟨h2, ha1.trans ha2, fun name hn => hb name ?_⟩
    obtain ⟨g, hg, hgn⟩ | hn := hn
    · rcases List.mem_cons.1 hg with rfl | hg
      · exact .inr (bindsFormal_declareFormal hs g (.inl hgn))
      · exact .inl ⟨g, hg, hgn⟩
    · exact .inr (bindsFormal_declareFormal hs f (.inr hn))

end

end ScopeTree

/-! ## What nodes are stamped with -/

/-- A region of a tree, with the symbols around it that a name in it may denote. -/
structure Place where
  tree : ScopeTree
  firstScope : Nat
  endScope : Nat
  firstSymbol : Nat
  endSymbol : Nat
  known : SymbolId → Prop

namespace Place

/-- The symbol is one of the region. -/
def Owns (V : Place) (y : Nat) : Prop := V.firstSymbol ≤ y ∧ y < V.endSymbol

/-- The scope is one of the region. -/
def Holds (V : Place) (s : Nat) : Prop := V.firstScope ≤ s ∧ s < V.endScope

/-- The tree, when the region is complete, still has what the step from `T` to `T'` added. -/
structure Sees (V : Place) (T T' : ScopeTree) : Prop where
  agrees : Agrees (fun a => T.scopes.size ≤ a) T' V.tree
  scopes_le : T'.scopes.size ≤ V.endScope
  symbols_le : T'.symbols.size ≤ V.endSymbol

/-- The region starts with what is added to `B`. -/
structure From (V : Place) (B : ScopeTree) : Prop where
  firstScope : V.firstScope = B.scopes.size
  firstSymbol : V.firstSymbol = B.symbols.size
  known : ∀ name y, (B.bindings rootScope).get? name = some y → V.known y

/-- The formals of a function are bound in the scope of its body. -/
structure Formals (V : Place) (s : Nat) (fs : List (Formal Span)) : Prop where
  scope : V.Holds s
  bound : ∀ f ∈ fs, V.tree.BindsFormal s f.name

end Place

/-- The stamps of a node, where `owner` is the innermost function around it, lie in the region or
were known before; the types written in it are free of variables. -/
def Placed (V : Place) (owner : Option String) : Node → Prop
  | .expr (.var _ _ _ (some y)) => V.known y ∨ V.Owns y
  | .expr (.alloc t _ _) | .expr (.cast _ (some t) _) => t.occurrences = []
  | .expr (.call _ _ _ _ s) | .expr (.structInit _ _ _ s) | .stmt (.typeDecl _ _ _ s) =>
    s = rootScope ∨ V.Holds s
  | .stmt (.varDecl _ _ _ _ _ y) =>
    ∃ x z, y = some x ∧ V.Owns x ∧ V.tree.symbol? x = some z ∧ z.kind = .variable
  | .stmt (.funDecl _ fs _ _ _ s s') => V.Holds s ∧ V.Formals s' fs
  | .stmt (.ret _ f _ _) => f = owner
  | _ => True

/-! ## Steps of binding -/

/-- Started in `T`, the step keeps to the region below the root of `B` and leaves the scopes in
`kept` as they are; its result is as `P` says where its traces are still seen. -/
structure Binds (V : Place) (B : ScopeTree) (kept : ScopeId → Prop) (T : ScopeTree) {α : Type}
    (x : StateM ScopeTree α) (P : α → Prop) : Prop where
  below : Below B (x.run T).2
  agrees : Agrees kept T (x.run T).2
  post : V.Sees T (x.run T).2 → P (x.run T).1

section
variable {V : Place} {B T T' T'' : ScopeTree} {s : Nat} {kept : ScopeId → Prop} {α β : Type}

theorem Place.Sees.first (h : V.Sees T T'') (ha : Agrees kept T' T'')
    (hk : ∀ a : Nat, T.scopes.size ≤ a → kept a) : V.Sees T T' :=
  ⟨(ha.mono hk).trans h.agrees, Nat.le_trans ha.scopes_le h.scopes_le,
    Nat.le_trans ha.symbols_le h.symbols_le⟩

theorem Place.Sees.second (h : V.Sees T T'') (h1 : T.scopes.size ≤ T'.scopes.size) :
    V.Sees T' T'' :=
  ⟨h.agrees.mono fun _ ha => Nat.le_trans h1 ha, h.scopes_le, h.symbols_le⟩

theorem Binds.bind {x : StateM ScopeTree α} {f : α → StateM ScopeTree β} {P : α → Prop}
    {Q : β → Prop} (hk : ∀ a : Nat, T.scopes.size ≤ a → kept a) (hx : Binds V B kept T x P)
    (hf : ∀ a T', Below B T' → Agrees kept T T' → Binds V B kept T' (f a) fun b => P a → Q b) :
    Binds V B kept T (x >>= f) Q := by
  have h := hf (x.run T).1 (x.run T).2 hx.below hx.agrees
  refine ⟨h.below, hx.agrees.trans h.agrees, fun hs => ?_⟩
  have hle := hx.agrees.scopes_le
  exact h.post (hs.second hle) (hx.post (hs.first h.agrees hk))

theorem Binds.pure {a : α} {P : α → Prop} (h : Below B T) (ha : P a) :
    Binds V B kept T (pure a) P := ⟨h, .refl T, fun _ => ha⟩

theorem Binds.mono {x : StateM ScopeTree α} {P Q : α → Prop} {kept' : ScopeId → Prop}
    (h : Binds V B kept T x P) (hk : ∀ a, kept' a → kept a) (hp : ∀ a, P a → Q a) :
    Binds V B kept' T x Q :=
  ⟨h.below, h.agrees.mono hk, fun hs => hp _ (h.post hs)⟩

theorem Binds.modify {f : ScopeTree → ScopeTree} {P : PUnit → Prop} (h : Below B (f T))
    (ha : Agrees kept T (f T)) (hp : V.Sees T (f T) → P ⟨⟩) : Binds V B kept T (modify f) P :=
  ⟨h, ha, hp⟩

theorem Binds.seq {x : StateM ScopeTree α} {f : α → StateM ScopeTree β} {P : α → Prop}
    {Q : β → Prop} (hx : Binds V B (fun _ => True) T x P)
    (hf : ∀ a T', Below B T' → Agrees (fun _ => True) T T' →
      Binds V B (fun _ => True) T' (f a) fun b => P a → Q b) :
    Binds V B (fun _ => True) T (x >>= f) Q :=
  hx.bind (fun _ _ => trivial) hf

theorem ne_of_size_le (hs : s < T.scopes.size) (a : Nat) (ha : T.scopes.size ≤ a) : a ≠ s :=
  Nat.ne_of_gt (Nat.lt_of_lt_of_le hs ha)

/-- A step in a statement of the scope `s` that leaves this scope as it is. -/
theorem Binds.andThen {x : StateM ScopeTree α} {f : α → StateM ScopeTree β} {P : α → Prop}
    {Q : β → Prop} (hs : s < T.scopes.size) (hx : Binds V B (fun _ => True) T x P)
    (hf : ∀ a T', Below B T' → Agrees (fun a => a ≠ s) T T' →
      Binds V B (fun a => a ≠ s) T' (f a) fun b => P a → Q b) :
    Binds V B (fun a => a ≠ s) T (x >>= f) Q :=
  (hx.mono (fun _ _ => trivial) fun _ => id).bind (ne_of_size_le hs) hf

/-- What is done in a new scope leaves all older scopes as they are. -/
theorem agrees_inside (h : Agrees (fun a => a ≠ T.scopes.size) (T.newScope s).2 T') :
    Agrees (fun _ => True) T T' := by
  have ha : Agrees (fun a => a < T.scopes.size) T T' :=
    (agrees_newScope T s).trans (h.mono fun _ => Nat.ne_of_lt)
  exact ⟨ha.scopes_le, ha.symbols_le, fun a h1 _ => ha.scope a h1 h1, ha.symbol⟩

theorem Binds.inside {f : ScopeId → StateM ScopeTree α} {P : α → Prop}
    (h : Binds V B (fun a => a ≠ T.scopes.size) (T.newScope s).2 (f T.scopes.size) P) :
    Binds V B (fun _ => True) T (do let inner ← modifyGet fun T => T.newScope s; f inner) P :=
  ⟨h.below, agrees_inside h.agrees, fun hs => h.post (hs.second (by simp))⟩

end

/-! ## Functions and blocks -/

/-- The part of a function declaration that is bound in a scope of its own. -/
def bindBody (name : String) (scope : ScopeId) (fs : List (Formal Span)) (b : Option (Expr Span)) :
    StateM ScopeTree (ScopeId × Option (Expr Span)) := do
  let inner ← modifyGet fun T => T.newScope scope
  modify (ScopeTree.declareFormals inner fs)
  let b ← Expr.bindOpt (some name) inner b
  return (inner, b)

theorem Stmt.bind_funDecl (owner : Option String) (scope : ScopeId) (x : String)
    (fs : List (Formal Span)) (b : Option (Expr Span)) (t : Option Ty) (p : Span) (s s' : ScopeId) :
    Stmt.bind owner scope (.funDecl x fs b t p s s') = (do
      let r ← bindBody x scope fs b
      return .funDecl x fs r.2 t p scope r.1) := by
  simp only [Stmt.bind, bindBody, bind_assoc, pure_bind]

section
variable {V : Place} {B T : ScopeTree} {s : Nat} (hV : V.From B)
include hV

theorem holds_of_inside (h : Inside B T s) (hs : T.scopes.size ≤ V.endScope) :
    s = rootScope ∨ V.Holds s :=
  h.below.imp_right fun hm => ⟨hV.firstScope ▸ hm, Nat.lt_of_lt_of_le h.lt hs⟩

/-- The name of a read denotes a symbol of the region or one known before. -/
theorem bind_var (h : Below B T) (hs : Inside B T s) {owner : Option String} {x : String} {p : Span}
    {s0 : ScopeId} {y : Option SymbolId} : Binds V B (fun _ => True) T
      (Expr.bind owner s (.var x p s0 y)) (Expr.Every (Placed V) owner) := by
  unfold Expr.bind
  refine ⟨h, .refl T, fun hsee => ?_⟩
  show Placed V owner (.expr (.var x p s (T.lookup? s x)))
  cases hy : T.lookup? s x with
  | none => exact trivial
  | some y =>
    refine (h.lookup hs hy).imp (hV.known x y) fun ⟨h1, h2⟩ => ⟨hV.firstSymbol ▸ h1, ?_⟩
    exact Nat.lt_of_lt_of_le h2 hsee.symbols_le

/-- A variable that is declared in any scope. -/
theorem declared_placed (h : Below B T) {owner : Option String} {x : String} {t : Option Ty}
    {e : Expr Span} {p : Span}
    (hsee : V.Sees T (T.declare s ⟨x, .variable, p, t.map Scheme.mono⟩).2) :
    Placed V owner (.stmt (.varDecl x t e p s (some T.symbols.size))) := by
  refine ⟨T.symbols.size, ⟨x, .variable, p, t.map Scheme.mono⟩, rfl, ⟨?_, ?_⟩, ?_, rfl⟩
  · rw [hV.firstSymbol]
    exact h.agrees.symbols_le
  · refine Nat.lt_of_lt_of_le ?_ hsee.symbols_le
    exact Nat.lt_of_lt_of_eq (Nat.lt_succ_self _) (size_symbols_declare ..).symm
  · exact hsee.agrees.symbol? ((symbol?_declare T s _ _).trans (if_pos rfl))

theorem bindBody_placed {name : String} {fs : List (Formal Span)} {b : Option (Expr Span)}
    (h : Below B T) (hs : Inside B T s) (hb : ∀ {s T}, Below B T → Inside B T s →
      Binds V B (fun _ => True) T (Expr.bindOpt (some name) s b)
        (Expr.EveryOpt (Placed V) (some name))) :
    Binds V B (fun _ => True) T (bindBody name s fs b) fun r =>
      V.Formals r.1 fs ∧ Expr.EveryOpt (Placed V) (some name) r.2 := by
  have hm : B.scopes.size ≤ T.scopes.size := h.agrees.scopes_le
  have hlt : T.scopes.size < (T.newScope s).2.scopes.size := by simp
  obtain ⟨h2, ha2, hf⟩ := declareFormals_below hm fs hlt (h.newScope hs)
  have h3 := hb h2 ((Inside.mono ⟨hlt, .inr hm⟩ ha2 : Inside B _ T.scopes.size))
  have ha3 := ha2.trans (h3.agrees.mono fun _ _ => trivial)
  have hlt2 := Nat.lt_of_lt_of_le hlt ha2.scopes_le
  refine ⟨h3.below, agrees_inside ha3, fun hsee => ⟨⟨⟨?_, ?_⟩, fun f hfs => ?_⟩, ?_⟩⟩
  · rw [hV.firstScope]
    exact hm
  · exact Nat.lt_of_lt_of_le (Nat.lt_of_lt_of_le hlt ha3.scopes_le) hsee.scopes_le
  · -- the scope of the body is left alone by all that follows
    obtain ⟨y, z, hy, hz, hk⟩ := hf f.name (.inl ⟨f, hfs, rfl⟩)
    refine ⟨y, z, ?_, hsee.agrees.symbol? (h3.agrees.symbol? hz), hk⟩
    rw [← hy]
    refine congrArg (fun c => Assoc.get? ((Option.map Scope.bindings c).getD ∅) f.name) ?_
    exact (hsee.agrees.scope _ (Nat.lt_of_lt_of_le hlt2 h3.agrees.scopes_le) (Nat.le_refl _)).trans
      (h3.agrees.scope _ hlt2 trivial)
  · exact h3.post (hsee.second (Nat.le_trans (Nat.le_of_lt hlt) ha2.scopes_le))

end

/-! ## The binder -/

/-- The statement is no declaration of a variable or a function. -/
def Stmt.Plain : Stmt Span → Prop
  | .varDecl .. | .funDecl .. => False
  | _ => True

/-- The condition that every type written in a program is free of variables. -/
def closedTypes (_ : Option String) (n : Node) : Prop := n.TypesClosed

instance (owner : Option String) (n : Node) : Decidable (closedTypes owner n) :=
  inferInstanceAs (Decidable n.TypesClosed)

section
variable {V : Place} {B : ScopeTree}
mutual

theorem Expr.bind_placed (hV : V.From B) : ∀ {owner : Option String} {s : Nat} {T : ScopeTree}
    (e : Expr Span), Expr.Every closedTypes owner e → Below B T → Inside B T s →
    Binds V B (fun _ => True) T (Expr.bind owner s e) (Expr.Every (Placed V) owner)
  | owner, s, T, .literal v p, _, h, hs => by
    unfold Expr.bind
    exact .pure h trivial
  | owner, s, T, .var x p s0 y, _, h, hs => bind_var hV h hs
  | owner, s, T, .unary op e p, ⟨_, he⟩, h, hs | owner, s, T, .deref e p, ⟨_, he⟩, h, hs
  | owner, s, T, .addressOf e p, ⟨_, he⟩, h, hs | owner, s, T, .field e x p s0, ⟨_, he⟩, h, hs => by
    unfold Expr.bind
    refine (Expr.bind_placed hV e he h hs).seq fun e' T1 h1 _ => ?_
    exact .pure h1 fun he' => ⟨trivial, he'⟩
  | owner, s, T, .binary op l r p, ⟨_, hl, hr⟩, h, hs
  | owner, s, T, .comparison op l r p, ⟨_, hl, hr⟩, h, hs => by
    unfold Expr.bind
    refine (Expr.bind_placed hV l hl h hs).seq fun l' T1 h1 a1 => ?_
    refine (Expr.bind_placed hV r hr h1 (hs.mono a1)).seq fun r' T2 h2 _ => ?_
    exact .pure h2 fun hr' hl' => ⟨trivial, hl', hr'⟩
  | owner, s, T, .cond c t e p, ⟨_, hc, ht, he⟩, h, hs => by
    unfold Expr.bind
    refine (Expr.bind_placed hV c hc h hs).seq fun c' T1 h1 a1 => ?_
    refine (Expr.bind_placed hV t ht h1 (hs.mono a1)).seq fun t' T2 h2 a2 => ?_
    refine (Expr.bindOpt_placed hV e he h2 ((hs.mono a1).mono a2)).seq fun e' T3 h3 _ => ?_
    exact .pure h3 fun he' ht' hc' => ⟨trivial, hc', ht', he'⟩
  | owner, s, T, .alloc t e p, ⟨ht, he⟩, h, hs => by
    unfold Expr.bind
    refine (Expr.bindOpt_placed hV e he h hs).seq fun e' T1 h1 _ => ?_
    exact .pure h1 fun he' => ⟨ht, he'⟩
  | owner, s, T, .block b e p s0, ⟨_, hb, he⟩, h, hs => by
    unfold Expr.bind
    have hm : B.scopes.size ≤ T.scopes.size := h.agrees.scopes_le
    have hin : Inside B (T.newScope s).2 T.scopes.size := ⟨by simp, .inr hm⟩
    refine Binds.inside ?_
    obtain ⟨h2, a2⟩ := hoistAll_below hm b (h.newScope hs) hb
    refine Binds.bind (ne_of_size_le hin.lt) (.modify (P := fun _ => True) h2 a2 fun _ => trivial)
      fun _ T2 h2 a2 => ?_
    have hin2 := hin.mono a2
    refine (Stmt.bindAll_placed hV b hb h2 hm hin2.lt).bind (ne_of_size_le hin2.lt)
      fun b' T3 h3 a3 => ?_
    have hin3 := hin2.mono a3
    refine (Expr.bindOpt_placed hV e he h3 hin3).andThen hin3.lt fun e' T4 h4 _ => ?_
    exact .pure h4 fun he' hb' _ => ⟨trivial, hb', he'⟩
  | owner, s, T, .call x q as p s0, ⟨_, has⟩, h, hs
  | owner, s, T, .structInit x as p s0, ⟨_, has⟩, h, hs => by
    unfold Expr.bind
    have ha := Expr.bindAll_placed hV as has h hs
    refine ⟨ha.below, ha.agrees, fun hsee => ⟨?_, ha.post hsee⟩⟩
    exact holds_of_inside hV (hs.mono ha.agrees) hsee.scopes_le
  | owner, s, T, .callValue c as p s0, ⟨_, hc, has⟩, h, hs => by
    unfold Expr.bind
    refine (Expr.bind_placed hV c hc h hs).seq fun c' T1 h1 a1 => ?_
    refine (Expr.bindAll_placed hV as has h1 (hs.mono a1)).seq fun as' T2 h2 _ => ?_
    exact .pure h2 fun has' hc' => ⟨trivial, hc', has'⟩
  | owner, s, T, .cast e t p, ⟨ht, he⟩, h, hs => by
    unfold Expr.bind
    refine (Expr.bind_placed hV e he h hs).seq fun e' T1 h1 _ => ?_
    exact .pure h1 fun he' => ⟨by cases t <;> exact ht, he'⟩

theorem Expr.bindOpt_placed (hV : V.From B) : ∀ {owner : Option String} {s : Nat} {T : ScopeTree}
    (e : Option (Expr Span)), Expr.EveryOpt closedTypes owner e → Below B T → Inside B T s →
    Binds V B (fun _ => True) T (Expr.bindOpt owner s e) (Expr.EveryOpt (Placed V) owner)
  | owner, s, T, none, _, h, hs => by
    unfold Expr.bindOpt
    exact .pure h trivial
  | owner, s, T, some e, he, h, hs => by
    unfold Expr.bindOpt
    refine (Expr.bind_placed hV e he h hs).seq fun e' T1 h1 _ => ?_
    exact .pure h1 id

theorem Expr.bindAll_placed (hV : V.From B) : ∀ {owner : Option String} {s : Nat} {T : ScopeTree}
    (es : List (Expr Span)), Expr.EveryAll closedTypes owner es → Below B T → Inside B T s →
    Binds V B (fun _ => True) T (Expr.bindAll owner s es) (Expr.EveryAll (Placed V) owner)
  | owner, s, T, [], _, h, hs => by
    unfold Expr.bindAll
    exact .pure h trivial
  | owner, s, T, e :: es, ⟨he, hes⟩, h, hs => by
    unfold Expr.bindAll
    refine (Expr.bind_placed hV e he h hs).seq fun e' T1 h1 a1 => ?_
    refine (Expr.bindAll_placed hV es hes h1 (hs.mono a1)).seq fun es' T2 h2 _ => ?_
    exact .pure h2 fun hes' he' => ⟨he', hes'⟩

theorem Stmt.bind_placed (hV : V.From B) : ∀ {owner : Option String} {s : Nat} {T : ScopeTree}
    (t : Stmt Span), Stmt.Every closedTypes owner t → Below B T → Inside B T s →
    (B.scopes.size ≤ s ∨ t.Plain) →
    Binds V B (fun a => a ≠ s) T (Stmt.bind owner s t) (Stmt.Every (Placed V) owner)
  | owner, s, T, .expr e, ⟨_, he⟩, h, hs, hp | owner, s, T, .yield e p, ⟨_, he⟩, h, hs, hp => by
    unfold Stmt.bind
    refine (Expr.bind_placed hV e he h hs).andThen hs.lt fun e' T1 h1 _ => ?_
    exact .pure h1 fun he' => ⟨trivial, he'⟩
  | owner, s, T, .typeDecl x t p s0, ht, h, hs, hp => by
    unfold Stmt.bind
    exact ⟨h, .refl T, fun hsee => holds_of_inside hV hs hsee.scopes_le⟩
  | owner, s, T, .varDecl x t e p s0 y, ⟨ht, he⟩, h, hs, hp => by
    unfold Stmt.bind
    refine (Expr.bind_placed hV e he h hs).andThen hs.lt fun e' T1 h1 a1 => ?_
    exact ⟨h1.declare (hp.resolve_right id) (closed_mono ht), agrees_declare T1 _ (· rfl),
      fun hsee he' => ⟨declared_placed hV h1 hsee, he'⟩⟩
  | owner, s, T, .funDecl x fs b t p s0 s1, ⟨ht, hb⟩, h, hs, hp => by
    rw [Stmt.bind_funDecl]
    refine (bindBody_placed hV h hs fun h' hs' => Expr.bindOpt_placed hV b hb h' hs').andThen hs.lt
      fun r T1 h1 a1 => ?_
    refine ⟨h1, .refl T1, fun hsee ⟨hf, hb'⟩ => ⟨⟨⟨?_, ?_⟩, hf⟩, hb'⟩⟩
    · rw [hV.firstScope]
      exact hp.resolve_right id
    · exact Nat.lt_of_lt_of_le (hs.mono a1).lt hsee.scopes_le
  | owner, s, T, .ret e f p s0, ⟨_, he⟩, h, hs, hp => by
    unfold Stmt.bind
    refine (Expr.bind_placed hV e he h hs).andThen hs.lt fun e' T1 h1 _ => ?_
    exact .pure h1 fun he' => ⟨rfl, he'⟩
  | owner, s, T, .assign l r p, ⟨_, hl, hr⟩, h, hs, hp => by
    unfold Stmt.bind
    refine (Expr.bind_placed hV l hl h hs).andThen hs.lt fun l' T1 h1 a1 => ?_
    have hs1 := hs.mono a1
    refine (Expr.bind_placed hV r hr h1 hs1).andThen hs1.lt fun r' T2 h2 _ => ?_
    exact .pure h2 fun hr' hl' => ⟨trivial, hl', hr'⟩

theorem Stmt.bindAll_placed (hV : V.From B) : ∀ {owner : Option String} {s : Nat} {T : ScopeTree}
    (ts : List (Stmt Span)), Stmt.EveryAll closedTypes owner ts → Below B T → B.scopes.size ≤ s →
    s < T.scopes.size →
    Binds V B (fun a => a ≠ s) T (Stmt.bindAll owner s ts) (Stmt.EveryAll (Placed V) owner)
  | owner, s, T, [], _, h, hm, hlt => by
    unfold Stmt.bindAll
    exact .pure h trivial
  | owner, s, T, t :: ts, ⟨ht, hts⟩, h, hm, hlt => by
    unfold Stmt.bindAll
    refine (Stmt.bind_placed hV t ht h ⟨hlt, .inr hm⟩ (.inl hm)).bind (ne_of_size_le hlt)
      fun t' T1 h1 a1 => ?_
    have hlt1 := Nat.lt_of_lt_of_le hlt a1.scopes_le
    refine (Stmt.bindAll_placed hV ts hts h1 hm hlt1).bind (ne_of_size_le hlt1)
      fun ts' T2 h2 _ => ?_
    exact .pure h2 fun hts' ht' => ⟨ht', hts'⟩

end

end

end TypeInference
