import TypeInference.Proofs.Program.TopLevel

/-!
# What binding builds, of any program

Nothing is asked of the program here. `ScopeTree.Built`: the root scope is the only one at level
one, a name of the root scope is bound to a symbol of that name, and no slot is polymorphic yet.
`Node.Stamped`: a `return` carries the name of the function around it, and a function of an inner
list of statements stands in the scope of that list, never in the root scope.

Binding builds such a tree and stamps every node in this way (`Program.bind_built`).
-/

namespace TypeInference

open ScopeTree

/-! ## Trees -/

namespace ScopeTree

/-- What any tree that binding builds is like (module doc). -/
structure Built (T : ScopeTree) : Prop where
  nonempty : rootScope < T.scopes.size
  parent : T.parent? rootScope = none
  level : T.level rootScope = 1
  deep : ∀ a < T.scopes.size, a ≠ rootScope → 2 ≤ T.level a
  named : T.NamesRoot
  mono : ∀ y σ, T.scheme? y = some σ → σ.vars = []

section
variable {T : ScopeTree} {s : ScopeId}

theorem built_initial : initial.Built where
  nonempty := Nat.one_pos
  parent := rfl
  level := rfl
  deep a ha hne := absurd (Nat.lt_one_iff.1 ha) hne
  named x y hy := by simp [initial, bindings, scope?, rootScope] at hy
  mono y σ hσ := by simp [initial, scheme?, symbol?] at hσ

theorem Built.one_le_level (h : T.Built) (hs : s < T.scopes.size) : 1 ≤ T.level s := by
  by_cases hr : s = rootScope
  · exact Nat.le_of_eq (hr ▸ h.level.symm)
  · exact Nat.le_of_succ_le (h.deep s hs hr)

/-- The level tells the root scope from all others. -/
theorem Built.eq_root_of_level (h : T.Built) (hs : T.level s = 1) : s = rootScope := by
  refine Classical.byContradiction fun hr => ?_
  by_cases hlt : s < T.scopes.size
  · have := h.deep s hlt hr
    omega
  · rw [ScopeTree.level, scope?, Array.getElem?_eq_none (Nat.not_lt.1 hlt)] at hs
    cases hs

theorem Built.newScope (h : T.Built) (hs : s < T.scopes.size) : (T.newScope s).2.Built := by
  have hroot : ¬ rootScope = T.scopes.size := Nat.ne_of_lt h.nonempty
  refine ⟨by simp [Nat.lt_succ_of_lt h.nonempty], ?_, ?_, fun a ha hne => ?_, fun x y hy => ?_,
    h.mono⟩
  · rw [parent?_newScope, if_neg hroot, h.parent]
  · rw [level_newScope, if_neg hroot, h.level]
  · rw [level_newScope]
    split
    · exact Nat.succ_le_succ (h.one_le_level hs)
    · rename_i hold
      rw [size_scopes_newScope] at ha
      exact h.deep a (Nat.lt_of_le_of_ne (Nat.le_of_lt_succ ha) hold) hne
  · rw [bindings_newScope, if_neg hroot] at hy
    exact h.named x y hy

theorem Built.declare (h : T.Built) (s : ScopeId) {z : Symbol}
    (hz : ∀ σ, z.scheme = some σ → σ.vars = []) : (T.declare s z).2.Built := by
  have hold : Agrees (fun a => a ≠ s) T (T.declare s z).2 := agrees_declare T z (· rfl)
  have hnew : (T.declare s z).2.symbol? T.symbols.size = some z := by
    rw [symbol?_declare, if_pos rfl]
  refine ⟨by simpa using h.nonempty, by rw [parent?_declare, h.parent],
    by rw [level_declare, h.level], fun a ha hne => ?_, fun x y hy => ?_, fun y σ hσ => ?_⟩
  · rw [level_declare]
    exact h.deep a (by simpa using ha) hne
  · by_cases hs : s = rootScope
    · subst hs
      rw [bindings_declare h.nonempty] at hy
      by_cases hx : z.name = x
      · subst hx
        rw [Assoc.get?_insert_self] at hy
        cases hy
        exact ⟨z, hnew, rfl⟩
      · rw [Assoc.get?_insert_of_ne _ hx] at hy
        exact (h.named x y hy).imp fun _ hw => ⟨hold.symbol? hw.1, hw.2⟩
    · rw [bindings_declare_of_ne hs] at hy
      exact (h.named x y hy).imp fun _ hw => ⟨hold.symbol? hw.1, hw.2⟩
  · rw [ScopeTree.scheme?, symbol?_declare] at hσ
    split at hσ
    · exact hz σ hσ
    · exact h.mono y σ hσ

theorem mono_of_map {t : Option Ty} : ∀ σ, t.map Scheme.mono = some σ → σ.vars = [] := by
  intro σ hσ
  obtain ⟨u, -, rfl⟩ := Option.map_eq_some_iff.1 hσ
  rfl

/-- In a scope that the tree has, names are declared and no scope is lost. -/
theorem Built.hoistAll (s : ScopeId) : ∀ (ts : List (Stmt Span)) {T : ScopeTree}, T.Built →
    (hoistAll s ts T).Built ∧ (hoistAll s ts T).scopes.size = T.scopes.size
  | [], _, h => ⟨h, rfl⟩
  | t :: ts, T, h => by
    have ht : (hoist s T t).Built ∧ (hoist s T t).scopes.size = T.scopes.size := by
      cases t with
      | funDecl x fs b u p s1 s2 => exact ⟨h.declare s mono_of_map, size_scopes_declare ..⟩
      | typeDecl x u p s1 =>
        exact ⟨h.declare s (mono_of_map (t := some (u.declaredAs x))), size_scopes_declare ..⟩
      | _ => exact ⟨h, rfl⟩
    obtain ⟨hts, hsize⟩ := Built.hoistAll s ts ht.1
    exact ⟨hts, hsize.trans ht.2⟩

theorem Built.declareFormals (s : ScopeId) : ∀ (fs : List (Formal Span)) {T : ScopeTree}, T.Built →
    (declareFormals s fs T).Built ∧ (declareFormals s fs T).scopes.size = T.scopes.size
  | [], _, h => ⟨h, rfl⟩
  | f :: fs, T, h => by
    have hf : (declareFormal s T f).Built := h.declare s nofun
    obtain ⟨hfs, hsize⟩ := Built.declareFormals s fs hf
    exact ⟨hfs, hsize.trans (size_scopes_declare ..)⟩

end

end ScopeTree

/-! ## Stamps -/

/-- The node is stamped in the function `owner`, below the root list of statements (module doc). -/
def Node.Stamped (owner : Option String) : Node → Prop
  | .stmt (.ret _ f _ _) => f = owner
  | .stmt (.funDecl _ _ (some _) _ _ s _) => s ≠ rootScope
  | _ => True

/-- The nodes of a statement of the root list are stamped; a function there stands in the root
scope. -/
def Stmt.TopStamped : Stmt Span → Prop
  | .funDecl x _ (some b) _ _ s _ => s = rootScope ∧ Expr.Every Node.Stamped (some x) b
  | t => Stmt.Every Node.Stamped none t

/-- Started in `T`, the step leaves a tree as binding builds it, with no scope lost. -/
structure Builds (T : ScopeTree) {α : Type} (x : StateM ScopeTree α) (P : α → Prop) : Prop where
  built : (x.run T).2.Built
  scopes_le : T.scopes.size ≤ (x.run T).2.scopes.size
  post : P (x.run T).1

section
variable {T : ScopeTree} {s : ScopeId} {α β : Type} {x : StateM ScopeTree α} {P : α → Prop}
  {Q : β → Prop}

theorem Builds.bind {f : α → StateM ScopeTree β} (hx : Builds T x P) (hf : ∀ a T', P a →
    T'.Built → T.scopes.size ≤ T'.scopes.size → Builds T' (f a) Q) : Builds T (x >>= f) Q :=
  have h := hf _ _ hx.post hx.built hx.scopes_le
  ⟨h.built, Nat.le_trans hx.scopes_le h.scopes_le, h.post⟩

theorem Builds.map {g : α → β} (hx : Builds T x P) (hg : ∀ a, P a → Q (g a)) :
    Builds T (do return g (← x)) Q :=
  ⟨hx.built, hx.scopes_le, hg _ hx.post⟩

theorem Builds.pure {a : α} (h : T.Built) (ha : P a) : Builds T (Pure.pure a) P :=
  ⟨h, Nat.le_refl _, ha⟩

/-- A step in a new scope, which has names declared in it first. -/
theorem Builds.inside {f : ScopeId → ScopeTree → ScopeTree} {g : ScopeId → StateM ScopeTree α}
    (h : T.Built) (hs : s < T.scopes.size) (hf : ∀ T' : ScopeTree, T'.Built →
      (f T.scopes.size T').Built ∧ (f T.scopes.size T').scopes.size = T'.scopes.size)
    (hg : ∀ T', T'.Built → T.scopes.size < T'.scopes.size → T.scopes.size ≠ rootScope →
      Builds T' (g T.scopes.size) P) :
    Builds T (do
      let inner ← modifyGet fun T => T.newScope s
      modify (f inner)
      g inner) P := by
  obtain ⟨hd, hsize⟩ := hf _ (h.newScope hs)
  have hlt : T.scopes.size < (f T.scopes.size (T.newScope s).2).scopes.size := by simp [hsize]
  have hb := hg _ hd hlt (Nat.ne_of_gt h.nonempty)
  exact ⟨hb.built, Nat.le_trans (Nat.le_of_lt hlt) hb.scopes_le, hb.post⟩

end

/-! ## The binder -/

mutual

theorem Expr.bind_builds : ∀ {owner : Option String} {s : Nat} {T : ScopeTree} (e : Expr Span),
    T.Built → s < T.scopes.size → Builds T (Expr.bind owner s e) (Expr.Every Node.Stamped owner)
  | owner, s, T, .literal v p, h, _ | owner, s, T, .var x p s0 y, h, _ => by
    unfold Expr.bind
    exact ⟨h, Nat.le_refl _, trivial⟩
  | owner, s, T, .unary op e p, h, hs | owner, s, T, .deref e p, h, hs
  | owner, s, T, .addressOf e p, h, hs | owner, s, T, .field e x p s0, h, hs
  | owner, s, T, .cast e t p, h, hs => by
    unfold Expr.bind
    exact (Expr.bind_builds e h hs).map fun _ he => ⟨trivial, he⟩
  | owner, s, T, .binary op l r p, h, hs | owner, s, T, .comparison op l r p, h, hs => by
    unfold Expr.bind
    refine (Expr.bind_builds l h hs).bind fun l' T1 hl h1 hle1 => ?_
    exact (Expr.bind_builds r h1 (Nat.lt_of_lt_of_le hs hle1)).map fun _ hr => ⟨trivial, hl, hr⟩
  | owner, s, T, .cond c t e p, h, hs => by
    unfold Expr.bind
    refine (Expr.bind_builds c h hs).bind fun c' T1 hc h1 hle1 => ?_
    have hs1 := Nat.lt_of_lt_of_le hs hle1
    refine (Expr.bind_builds t h1 hs1).bind fun t' T2 ht h2 hle2 => ?_
    exact (Expr.bindOpt_builds e h2 (Nat.lt_of_lt_of_le hs1 hle2)).map fun _ he =>
      ⟨trivial, hc, ht, he⟩
  | owner, s, T, .alloc t e p, h, hs => by
    unfold Expr.bind
    exact (Expr.bindOpt_builds e h hs).map fun _ he => ⟨trivial, he⟩
  | owner, s, T, .block b e p s0, h, hs => by
    unfold Expr.bind
    refine .inside h hs (fun T' h' => h'.hoistAll T.scopes.size b) fun T1 h1 hlt hne => ?_
    refine (Stmt.bindAll_builds b h1 hlt hne).bind fun b' T2 hb h2 hle => ?_
    exact (Expr.bindOpt_builds e h2 (Nat.lt_of_lt_of_le hlt hle)).map fun _ he =>
      ⟨trivial, hb, he⟩
  | owner, s, T, .call x q as p s0, h, hs | owner, s, T, .structInit x as p s0, h, hs => by
    unfold Expr.bind
    exact (Expr.bindAll_builds as h hs).map fun _ has => ⟨trivial, has⟩
  | owner, s, T, .callValue c as p s0, h, hs => by
    unfold Expr.bind
    refine (Expr.bind_builds c h hs).bind fun c' T1 hc h1 hle1 => ?_
    exact (Expr.bindAll_builds as h1 (Nat.lt_of_lt_of_le hs hle1)).map fun _ has =>
      ⟨trivial, hc, has⟩

theorem Expr.bindOpt_builds : ∀ {owner : Option String} {s : Nat} {T : ScopeTree}
    (e : Option (Expr Span)), T.Built → s < T.scopes.size →
    Builds T (Expr.bindOpt owner s e) (Expr.EveryOpt Node.Stamped owner)
  | owner, s, T, none, h, _ => by
    unfold Expr.bindOpt
    exact .pure h trivial
  | owner, s, T, some e, h, hs => by
    unfold Expr.bindOpt
    exact (Expr.bind_builds e h hs).map fun _ => id

theorem Expr.bindAll_builds : ∀ {owner : Option String} {s : Nat} {T : ScopeTree}
    (es : List (Expr Span)), T.Built → s < T.scopes.size →
    Builds T (Expr.bindAll owner s es) (Expr.EveryAll Node.Stamped owner)
  | owner, s, T, [], h, _ => by
    unfold Expr.bindAll
    exact .pure h trivial
  | owner, s, T, e :: es, h, hs => by
    unfold Expr.bindAll
    refine (Expr.bind_builds e h hs).bind fun e' T1 he h1 hle1 => ?_
    exact (Expr.bindAll_builds es h1 (Nat.lt_of_lt_of_le hs hle1)).map fun _ hes => ⟨he, hes⟩

/-- A function declared in the root scope is bound like one below it; only its own scope differs. -/
theorem Stmt.bind_builds : ∀ {owner : Option String} {s : Nat} {T : ScopeTree} (t : Stmt Span),
    T.Built → s < T.scopes.size →
    Builds T (Stmt.bind owner s t) fun t' => (s ≠ rootScope → Stmt.Every Node.Stamped owner t') ∧
      (s = rootScope → owner = none → t'.TopStamped)
  | owner, s, T, .expr e, h, hs | owner, s, T, .yield e p, h, hs => by
    unfold Stmt.bind
    exact (Expr.bind_builds e h hs).map fun _ he =>
      ⟨fun _ => ⟨trivial, he⟩, fun _ ho => ⟨trivial, ho ▸ he⟩⟩
  | owner, s, T, .typeDecl x t p s0, h, hs => by
    unfold Stmt.bind
    exact .pure h ⟨fun _ => trivial, fun _ _ => trivial⟩
  | owner, s, T, .varDecl x t e p s0 y, h, hs => by
    unfold Stmt.bind
    refine (Expr.bind_builds e h hs).bind fun e' T1 he h1 _ => ?_
    refine ⟨h1.declare s mono_of_map, Nat.le_of_eq (size_scopes_declare ..).symm, ?_⟩
    exact ⟨fun _ => ⟨trivial, he⟩, fun _ ho => ⟨trivial, ho ▸ he⟩⟩
  | owner, s, T, .funDecl x fs b t p s0 s1, h, hs => by
    unfold Stmt.bind
    refine .inside h hs (fun T' h' => h'.declareFormals T.scopes.size fs) fun T1 h1 hlt _ => ?_
    refine (Expr.bindOpt_builds b h1 hlt).map fun b' hb => ?_
    cases b' with
    | none => exact ⟨fun _ => ⟨trivial, trivial⟩, fun _ _ => ⟨trivial, trivial⟩⟩
    | some b' => exact ⟨fun hne => ⟨hne, hb⟩, fun hroot _ => ⟨hroot, hb⟩⟩
  | owner, s, T, .ret e f p s0, h, hs => by
    unfold Stmt.bind
    exact (Expr.bind_builds e h hs).map fun _ he =>
      ⟨fun _ => ⟨rfl, he⟩, fun _ ho => ⟨ho, ho ▸ he⟩⟩
  | owner, s, T, .assign l r p, h, hs => by
    unfold Stmt.bind
    refine (Expr.bind_builds l h hs).bind fun l' T1 hl h1 hle1 => ?_
    exact (Expr.bind_builds r h1 (Nat.lt_of_lt_of_le hs hle1)).map fun _ hr =>
      ⟨fun _ => ⟨trivial, hl, hr⟩, fun _ ho => ⟨trivial, ho ▸ hl, ho ▸ hr⟩⟩

theorem Stmt.bindAll_builds : ∀ {owner : Option String} {s : Nat} {T : ScopeTree}
    (ts : List (Stmt Span)), T.Built → s < T.scopes.size → s ≠ rootScope →
    Builds T (Stmt.bindAll owner s ts) (Stmt.EveryAll Node.Stamped owner)
  | owner, s, T, [], h, _, _ => by
    unfold Stmt.bindAll
    exact .pure h trivial
  | owner, s, T, t :: ts, h, hs, hne => by
    unfold Stmt.bindAll
    refine (Stmt.bind_builds t h hs).bind fun t' T1 ht h1 hle1 => ?_
    exact (Stmt.bindAll_builds ts h1 (Nat.lt_of_lt_of_le hs hle1) hne).map fun _ hts =>
      ⟨ht.1 hne, hts⟩

end

/-- The statements of the root list. -/
theorem Stmt.bindAll_builds_root : ∀ (ts : List (Stmt Span)) {T : ScopeTree}, T.Built →
    Builds T (Stmt.bindAll none rootScope ts) fun ts' => ∀ t ∈ ts', t.TopStamped
  | [], T, h => by
    unfold Stmt.bindAll
    exact .pure h nofun
  | t :: ts, T, h => by
    unfold Stmt.bindAll
    refine (Stmt.bind_builds t h h.nonempty).bind fun t' T1 ht h1 _ => ?_
    exact (Stmt.bindAll_builds_root ts h1).map fun _ hts =>
      List.forall_mem_cons.2 ⟨ht.2 rfl rfl, hts⟩

/-- Binding any program builds such a tree and stamps every node. -/
theorem Program.bind_built (P : Program Span) :
    P.bind.2.Built ∧ ∀ t ∈ P.bind.1, t.TopStamped :=
  have h := Stmt.bindAll_builds_root P (built_initial.hoistAll rootScope P).1
  ⟨h.built, h.post⟩

end TypeInference
