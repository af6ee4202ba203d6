import TypeInference.Proofs.Program.Regions
import TypeInference.Proofs.Scoping.Lexical

/-!
# Binding keeps to the scoping rule

Binding answers a read from the tree as it is at that moment. `Stands T m ρ` says that this tree
shows the regions `ρ`: their scopes lie in each other, and each binds the names that have a
candidate in its region, to the candidate that the rule picks (`Shows`). So the look-up of a name
answers what the name denotes in the regions (`Stands.lookup?`).

`Follows` is what a step of binding is known to do: the tree that it leaves stands for the regions
behind it, and its reads are stamped by the rule. The walk goes by the forms of expressions and
statements, and `Program.reads_bound` says of whole programs that binding implements the rule.
-/

namespace TypeInference

open ScopeTree Lexical

namespace Lexical

/-! ## What a region picks -/

theorem lastNamed?_concat (name : String) (ds : List Candidate) (z : Symbol) (y : SymbolId) :
    lastNamed? name (ds ++ [(z, y)]) = if z.name = name then some y else lastNamed? name ds := by
  simp only [lastNamed?, List.reverse_append, List.reverse_singleton, List.singleton_append,
    List.find?_cons]
  split <;> rename_i h <;> simp_all

/-- The region with one more function, type or formal. -/
def Region.list (r : Region) (d : Candidate) : Region := { r with listed := r.listed ++ [d] }

/-- The region with one more variable. -/
def Region.precede (r : Region) (d : Candidate) : Region :=
  { r with preceding := r.preceding ++ [d] }

theorem Region.pick?_precede (r : Region) (z : Symbol) (y : SymbolId) (name : String) :
    (r.precede (z, y)).pick? name = if z.name = name then some y else r.pick? name := by
  rw [pick?, precede, lastNamed?_concat, pick?]
  split <;> rfl

theorem Region.pick?_list {r : Region} (hr : r.preceding = []) (z : Symbol) (y : SymbolId)
    (name : String) :
    (r.list (z, y)).pick? name = if z.name = name then some y else r.pick? name := by
  rw [pick?, list, lastNamed?_concat, pick?, hr]
  split <;> rfl

/-! ## Trees that show regions -/

/-- The tree `T'` has the symbols of `T`, and its scopes with the parents and levels they have. -/
structure Grows (T T' : ScopeTree) : Prop where
  parent : ∀ a < T.scopes.size, T'.parent? a = T.parent? a
  level : ∀ a < T.scopes.size, T'.level a = T.level a
  scopes_le : T.scopes.size ≤ T'.scopes.size
  symbol : ∀ y z, T.symbol? y = some z → T'.symbol? y = some z

/-- In the tree, the scope of `r` lies in those of `ρ` and binds what `r` picks. -/
structure Shows (T : ScopeTree) (r : Region) (ρ : List Region) : Prop where
  lt : r.scope < T.scopes.size
  root : ρ = [] → r.scope = rootScope
  outer : ∀ q ∈ ρ, q.scope < r.scope
  parent : T.parent? r.scope = ρ.head?.map Region.scope
  level : T.level r.scope = ρ.length + 1
  bindings : ∀ name, (T.bindings r.scope).get? name = r.pick? name
  symbols : ∀ d ∈ r.candidates, T.symbol? d.2 = some d.1

def ShowsAll (T : ScopeTree) : List Region → Prop
  | [] => True
  | r :: ρ => Shows T r ρ ∧ ShowsAll T ρ

/-- The tree shows the regions and has all that is made so far. -/
structure Stands (T : ScopeTree) (m : Made) (ρ : List Region) : Prop where
  scopes : T.scopes.size = m.scopes
  symbols : T.symbols.size = m.symbols
  regions : ShowsAll T ρ

/-- In the tree the regions around the read are scopes in each other and their candidates are the
symbols with these numbers. -/
def Read.Placed (T : ScopeTree) (q : Read) : Prop :=
  Nested T q.regions ∧ ∀ r ∈ q.regions, ∀ d ∈ r.candidates, T.symbol? d.2 = some d.1

section
variable {T T' T'' : ScopeTree} {m m' : Made} {r : Region} {ρ : List Region}

theorem Grows.refl (T : ScopeTree) : Grows T T :=
  ⟨fun _ _ => rfl, fun _ _ => rfl, Nat.le_refl _, fun _ _ => id⟩

theorem Grows.trans (h : Grows T T') (h' : Grows T' T'') : Grows T T'' where
  parent a ha := (h'.parent a (Nat.lt_of_lt_of_le ha h.scopes_le)).trans (h.parent a ha)
  level a ha := (h'.level a (Nat.lt_of_lt_of_le ha h.scopes_le)).trans (h.level a ha)
  scopes_le := Nat.le_trans h.scopes_le h'.scopes_le
  symbol y z hy := h'.symbol y z (h.symbol y z hy)

theorem grows_newScope (T : ScopeTree) (s : ScopeId) : Grows T (T.newScope s).2 where
  parent a ha := by rw [parent?_newScope, if_neg (Nat.ne_of_lt ha)]
  level a ha := by rw [level_newScope, if_neg (Nat.ne_of_lt ha)]
  scopes_le := by simp
  symbol _ _ := id

theorem grows_declare (T : ScopeTree) (s : ScopeId) (z : Symbol) : Grows T (T.declare s z).2 where
  parent _ _ := parent?_declare ..
  level _ _ := level_declare ..
  scopes_le := by simp
  symbol y z hy := by rw [symbol?_declare, if_neg (Nat.ne_of_lt (lt_of_symbol? hy)), hy]

/-! ### Look-up -/

theorem ShowsAll.ancestorsFrom : ∀ {ρ : List Region} {r : Region} (k : Nat),
    ShowsAll T (r :: ρ) → r.scope < k → T.ancestorsFrom k r.scope = (r :: ρ).map Region.scope
  | [], r, k + 1, ⟨h, _⟩, _ => by
    rw [ScopeTree.ancestorsFrom, h.parent]
    rfl
  | q :: ρ, r, k + 1, ⟨h, hq⟩, hk => by
    have hlt : q.scope < k := Nat.lt_of_lt_of_le (h.outer q List.mem_cons_self)
      (Nat.le_of_lt_succ hk)
    rw [ScopeTree.ancestorsFrom, h.parent]
    exact congrArg (r.scope :: ·) (hq.ancestorsFrom k hlt)

theorem ShowsAll.find? (name : String) : ∀ {ρ : List Region}, ShowsAll T ρ →
    ((ρ.map Region.scope).find? fun a => (T.bindings a).contains name).bind
      (fun a => (T.bindings a).get? name) = denoted? ρ name
  | [], _ => rfl
  | r :: ρ, ⟨h, hρ⟩ => by
    have ih := hρ.find? name
    rw [denoted?] at ih ⊢
    rw [List.map_cons, List.find?_cons, Assoc.contains, h.bindings, List.findSome?_cons]
    cases hp : r.pick? name with
    | none => exact ih
    | some y => exact (h.bindings name).trans hp

/-- A look-up answers what the name denotes in the regions that the tree shows. -/
theorem Stands.lookup? (h : Stands T m (r :: ρ)) (name : String) :
    T.lookup? r.scope name = denoted? (r :: ρ) name := by
  rw [ScopeTree.lookup?, ScopeTree.find?, ancestors, h.regions.ancestorsFrom _ h.regions.1.lt]
  exact h.regions.find? name

/-! ### Placed reads -/

theorem ShowsAll.nested : ∀ {ρ : List Region} {r : Region}, ShowsAll T (r :: ρ) →
    Nested T (r :: ρ)
  | [], _, ⟨h, _⟩ => ⟨h.root rfl, h.parent, h.level⟩
  | q :: ρ, r, ⟨h, hq⟩ => ⟨h.parent, by rw [h.level, hq.1.level]; rfl, hq.nested⟩

theorem ShowsAll.symbols : ∀ {ρ : List Region}, ShowsAll T ρ →
    ∀ r ∈ ρ, ∀ d ∈ r.candidates, T.symbol? d.2 = some d.1
  | [], _ => nofun
  | _ :: _, ⟨h, hρ⟩ => List.forall_mem_cons.2 ⟨h.symbols, hρ.symbols⟩

theorem lt_of_level {a : ScopeId} (h : 0 < T.level a) : a < T.scopes.size := by
  refine Classical.byContradiction fun hn => ?_
  rw [ScopeTree.level, scope?, Array.getElem?_eq_none (Nat.not_lt.1 hn)] at h
  exact absurd h (Nat.lt_irrefl 0)

theorem Nested.grows (hg : Grows T T') : ∀ {ρ : List Region}, Nested T ρ → Nested T' ρ
  | [r], ⟨hr, hp, hl⟩ => by
    have hlt : r.scope < T.scopes.size := lt_of_level (hl ▸ Nat.one_pos)
    exact ⟨hr, by rw [hg.parent _ hlt, hp], by rw [hg.level _ hlt, hl]⟩
  | r :: q :: ρ, ⟨hp, hl, hq⟩ => by
    have hlt : r.scope < T.scopes.size := lt_of_level (hl ▸ Nat.succ_pos _)
    have hlt' : q.scope < T.scopes.size := by
      cases ρ with
      | nil => exact lt_of_level (hq.2.2 ▸ Nat.one_pos)
      | cons _ _ => exact lt_of_level (hq.2.1 ▸ Nat.succ_pos _)
    exact ⟨by rw [hg.parent _ hlt, hp], by rw [hg.level _ hlt, hg.level _ hlt', hl], hq.grows hg⟩

theorem Read.Placed.grows {q : Read} (h : q.Placed T) (hg : Grows T T') : q.Placed T' :=
  ⟨h.1.grows hg, fun r hr d hd => hg.symbol _ _ (h.2 r hr d hd)⟩

/-! ### Growth -/

/-- Regions go on being shown while the bindings of their scopes stay. -/
theorem ShowsAll.grows (hg : Grows T T') : ∀ {ρ : List Region}, ShowsAll T ρ →
    (∀ r ∈ ρ, T'.bindings r.scope = T.bindings r.scope) → ShowsAll T' ρ
  | [], _, _ => trivial
  | r :: ρ, ⟨h, hρ⟩, hb => by
    obtain ⟨hr, hb⟩ := List.forall_mem_cons.1 hb
    exact ⟨{
      lt := Nat.lt_of_lt_of_le h.lt hg.scopes_le
      root := h.root
      outer := h.outer
      parent := (hg.parent _ h.lt).trans h.parent
      level := (hg.level _ h.lt).trans h.level
      bindings := fun name => by rw [hr, h.bindings]
      symbols := fun d hd => hg.symbol _ _ (h.symbols d hd) }, hρ.grows hg hb⟩

theorem ShowsAll.lt : ∀ {ρ : List Region}, ShowsAll T ρ → ∀ r ∈ ρ, r.scope < T.scopes.size
  | [], _ => nofun
  | _ :: _, ⟨h, hρ⟩ => List.forall_mem_cons.2 ⟨h.lt, hρ.lt⟩

/-- A scope opened in the innermost region is a region without candidates. -/
theorem Stands.newScope (h : Stands T m (r :: ρ)) :
    Stands (T.newScope r.scope).2 m.scope (⟨m.scopes, [], []⟩ :: r :: ρ) := by
  have hb : ∀ q ∈ r :: ρ, (T.newScope r.scope).2.bindings q.scope = T.bindings q.scope :=
    fun q hq => by rw [bindings_newScope, if_neg (Nat.ne_of_lt (h.regions.lt q hq))]
  refine ⟨by simp [h.scopes, Made.scope], h.symbols,
    ⟨?_, h.regions.grows (grows_newScope T r.scope) hb⟩⟩
  rw [← h.scopes]
  exact {
    lt := by simp
    root := nofun
    outer := h.regions.lt
    parent := by simp [parent?_newScope]
    level := by simp [level_newScope, h.regions.1.level]
    bindings := fun name => by simp [bindings_newScope, Region.pick?, lastNamed?]
    symbols := nofun }

/-- A name declared in the scope of the innermost region: the region picks it from now on. -/
theorem Stands.declare (h : Stands T m (r :: ρ)) (z : Symbol) (r' : Region)
    (hs : r'.scope = r.scope)
    (hp : ∀ name, r'.pick? name = if z.name = name then some m.symbols else r.pick? name)
    (hc : ∀ d ∈ r'.candidates, d ∈ r.candidates ∨ d = (z, m.symbols)) :
    Stands (T.declare r.scope z).2 (m.declare 1) (r' :: ρ) := by
  obtain ⟨hm, hn, hr, hρ⟩ := h
  have hg := grows_declare T r.scope z
  have hb : ∀ q ∈ ρ, (T.declare r.scope z).2.bindings q.scope = T.bindings q.scope :=
    fun q hq => bindings_declare_of_ne (Nat.ne_of_gt (hr.outer q hq)) z
  refine ⟨by simp [hm, Made.declare], by simp [hn, Made.declare], ⟨?_, hρ.grows hg hb⟩⟩
  refine {
    lt := ?_, root := fun hρ => hs.trans (hr.root hρ), outer := fun q hq => hs ▸ hr.outer q hq
    parent := ?_, level := ?_, bindings := fun name => ?_, symbols := fun d hd => ?_ }
  · rw [hs]
    simpa using hr.lt
  · rw [hs, parent?_declare, hr.parent]
  · rw [hs, level_declare, hr.level]
  · rw [hs, bindings_declare hr.lt, hp, hn, ← hr.bindings]
    split <;> rename_i hz
    · rw [hz, Assoc.get?_insert_self]
    · rw [Assoc.get?_insert_of_ne _ hz]
  · rcases hc d hd with hd | rfl
    · exact hg.symbol _ _ (hr.symbols d hd)
    · rw [symbol?_declare, if_pos hn.symm]

/-- Functions, types or formals declared one after another. -/
theorem Stands.declareAll : ∀ (zs : List Symbol) {T : ScopeTree} {m : Made} {r : Region},
    Stands T m (r :: ρ) → r.preceding = [] →
    Stands (zs.foldl (fun T z => (T.declare r.scope z).2) T) (m.declare zs.length)
        ({ r with listed := r.listed ++ m.number zs } :: ρ) ∧
      Grows T (zs.foldl (fun T z => (T.declare r.scope z).2) T)
  | [], T, m, r, h, _ => by simpa [Made.declare, Made.number] using ⟨h, Grows.refl T⟩
  | z :: zs, T, m, r, h, hr => by
    have h1 : Stands (T.declare r.scope z).2 (m.declare 1) (r.list (z, m.symbols) :: ρ) := by
      refine h.declare z _ rfl (Region.pick?_list hr z m.symbols) fun d hd => ?_
      simp only [Region.candidates, Region.list, hr, List.append_nil, List.mem_append,
        List.mem_singleton] at hd ⊢
      exact hd
    obtain ⟨h2, hg⟩ := h1.declareAll zs hr
    have he : r.listed ++ m.number (z :: zs) =
        (r.list (z, m.symbols)).listed ++ (m.declare 1).number zs := by
      simp [Made.number, Region.list, Made.declare]
    have hm : m.declare (z :: zs).length = (m.declare 1).declare zs.length := by
      simp only [Made.declare, List.length_cons, Made.mk.injEq, true_and]
      omega
    rw [List.foldl_cons, he, hm]
    exact ⟨h2, (grows_declare T r.scope z).trans hg⟩

theorem hoistAll_eq (s : ScopeId) (ts : List (Stmt Span)) (T : ScopeTree) :
    hoistAll s ts T = (Stmt.listed ts).foldl (fun T z => (T.declare s z).2) T := by
  rw [Stmt.listed, List.foldl_filterMap, hoistAll]
  refine congrArg (fun f => ts.foldl f T) ?_
  funext T t
  cases t <;> rfl

theorem declareFormals_eq (s : ScopeId) (fs : List (Formal Span)) (T : ScopeTree) :
    declareFormals s fs T = (fs.map Formal.symbol).foldl (fun T z => (T.declare s z).2) T := by
  rw [List.foldl_map]
  rfl

end

/-! ## Steps of binding -/

/-- Started in `T`, the step leaves a tree that stands for `m` and `ρ`; the reads are placed in it
and the result is as `P` says. -/
structure Follows (m : Made) (ρ : List Region) (T : ScopeTree) {α : Type} (x : StateM ScopeTree α)
    (reads : List Read) (P : α → Prop) : Prop where
  stands : Stands (x.run T).2 m ρ
  grows : Grows T (x.run T).2
  placed : ∀ q ∈ reads, q.Placed (x.run T).2
  post : P (x.run T).1

section
variable {T : ScopeTree} {m m' : Made} {r : Region} {ρ ρ' : List Region} {α β : Type}
  {x : StateM ScopeTree α} {qs qs' : List Read} {P : α → Prop} {Q : β → Prop}

theorem Follows.bind {f : α → StateM ScopeTree β} (hx : Follows m ρ T x qs P)
    (hf : ∀ a T1, P a → Stands T1 m ρ → Follows m' ρ' T1 (f a) qs' Q) :
    Follows m' ρ' T (x >>= f) (qs ++ qs') Q := by
  have h := hf _ _ hx.post hx.stands
  refine ⟨h.stands, hx.grows.trans h.grows, fun q hq => ?_, h.post⟩
  rcases List.mem_append.1 hq with hq | hq
  · exact (hx.placed q hq).grows h.grows
  · exact h.placed q hq

theorem Follows.map {g : α → β} (hx : Follows m ρ T x qs P) (hg : ∀ a, P a → Q (g a)) :
    Follows m ρ T (do return g (← x)) qs Q :=
  ⟨hx.stands, hx.grows, hx.placed, hg _ hx.post⟩

theorem Follows.pure {a : α} (h : Stands T m ρ) (ha : P a) : Follows m ρ T (pure a) [] P :=
  ⟨h, .refl T, nofun, ha⟩

/-- A step in a new scope that ends as the region `inner` leaves the regions around it. -/
theorem Follows.inside {f : ScopeId → StateM ScopeTree α} (inner : Region)
    (h : Stands T m (r :: ρ)) (hf : ∀ T1, Stands T1 m.scope (⟨m.scopes, [], []⟩ :: r :: ρ) →
      Follows m' (inner :: r :: ρ) T1 (f m.scopes) qs P) :
    Follows m' (r :: ρ) T (do let s ← modifyGet fun T => T.newScope r.scope; f s) qs P := by
  obtain ⟨hs, hg, hq, hp⟩ := hf _ h.newScope
  rw [← h.scopes] at hs hg hq hp
  exact ⟨⟨hs.scopes, hs.symbols, hs.regions.2⟩, (grows_newScope T r.scope).trans hg, hq, hp⟩

/-- Declarations in the scope of a region that has none yet. -/
theorem follows_declareAll {s : ScopeId} {zs : List Symbol} {f : ScopeTree → ScopeTree}
    (h : Stands T m (⟨s, [], []⟩ :: ρ))
    (hf : f T = zs.foldl (fun T z => (T.declare s z).2) T) :
    Follows (m.declare zs.length) (⟨s, m.number zs, []⟩ :: ρ) T (modify f) [] fun _ => True := by
  obtain ⟨hs, hg⟩ := h.declareAll zs rfl
  refine ⟨?_, ?_, nofun, trivial⟩
  · show Stands (f T) _ _
    rw [hf]
    exact hs
  · show Grows T (f T)
    rw [hf]
    exact hg

end

end Lexical

/-! ## The binder -/

/-- The reads among the stamps are stamped by the rule. -/
def Lexical.Obeys (qs : List Read) (stamps : List Stamp) : Prop :=
  stamps.filter Stamp.isRead = qs.map Read.stamp

theorem Lexical.Region.past_of_none {r : Region} {m : Made} {t : Stmt Span}
    (h : t.declaredVar? m = none) : r.past m t = r := by
  simp [Region.past, h]

theorem Lexical.Region.scope_pastAll : ∀ (ts : List (Stmt Span)) (r : Region) (m : Made),
    (r.pastAll m ts).scope = r.scope
  | [], _, _ => rfl
  | t :: ts, r, m => scope_pastAll ts (r.past m t) (t.after m)

theorem Lexical.Obeys.append {qs qs' : List Read} {stamps stamps' : List Stamp}
    (h : Obeys qs stamps) (h' : Obeys qs' stamps') : Obeys (qs ++ qs') (stamps ++ stamps') := by
  unfold Obeys at *
  rw [List.filter_append, List.map_append, h, h']

/-- The stamp of a node that is no read. -/
theorem Lexical.Obeys.cons {qs : List Read} {stamps : List Stamp} (h : Obeys qs stamps) {a : Stamp}
    (ha : a.isRead = false) : Obeys qs (a :: stamps) := by
  unfold Obeys at *
  rw [List.filter_cons_of_neg (by simp [ha]), h]

mutual

theorem Expr.bind_follows : ∀ {owner : Option String} {T : ScopeTree} {m : Made} {r : Region}
    {ρ : List Region} (e : Expr Span), Stands T m (r :: ρ) →
    Follows (e.after m) (r :: ρ) T (Expr.bind owner r.scope e) (e.reads r ρ m)
      fun e' => Obeys (e.reads r ρ m) e'.stamps
  | owner, T, m, r, ρ, .literal v p, h => by
    unfold Expr.bind
    exact .pure h rfl
  | owner, T, m, r, ρ, .var x p s y, h => by
    unfold Expr.bind
    refine ⟨h, .refl T, List.forall_mem_singleton.2 ⟨h.regions.nested, h.regions.symbols⟩, ?_⟩
    show [Stamp.var p r.scope (T.lookup? r.scope x)] = [Stamp.var p r.scope (denoted? (r :: ρ) x)]
    rw [h.lookup?]
  | owner, T, m, r, ρ, .unary op e p, h | owner, T, m, r, ρ, .deref e p, h
  | owner, T, m, r, ρ, .addressOf e p, h | owner, T, m, r, ρ, .cast e t p, h => by
    unfold Expr.bind
    exact (Expr.bind_follows e h).map fun _ => id
  | owner, T, m, r, ρ, .binary op a b p, h | owner, T, m, r, ρ, .comparison op a b p, h => by
    unfold Expr.bind
    refine (Expr.bind_follows a h).bind fun a' T1 ha h1 => ?_
    exact (Expr.bind_follows b h1).map fun _ hb => ha.append hb
  | owner, T, m, r, ρ, .cond c t e p, h => by
    unfold Expr.bind
    unfold Expr.reads
    rw [List.append_assoc]
    refine (Expr.bind_follows c h).bind fun c' T1 hc h1 => ?_
    refine (Expr.bind_follows t h1).bind fun t' T2 ht h2 => ?_
    refine (Expr.bindOpt_follows e h2).map fun e' he => ?_
    rw [← List.append_assoc]
    exact (hc.append ht).append he
  | owner, T, m, r, ρ, .alloc t e p, h => by
    unfold Expr.bind
    exact (Expr.bindOpt_follows e h).map fun _ => id
  | owner, T, m, r, ρ, .block b e p s, h => by
    unfold Expr.bind
    refine .inside ((ofStmts m m.scopes b).pastAll (m.scope.declare (Stmt.listed b).length) b) h
      fun T1 h1 => ?_
    refine (follows_declareAll h1 (hoistAll_eq m.scopes b T1)).bind fun _ T2 _ h2 => ?_
    refine (Stmt.bindAll_follows b h2).bind fun b' T3 hb h3 => ?_
    have h4 : Follows _ _ T3 (Expr.bindOpt owner _ e) _ _ := Expr.bindOpt_follows e h3
    rw [Region.scope_pastAll] at h4
    exact h4.map fun e' he => (hb.append he).cons rfl
  | owner, T, m, r, ρ, .call x q as p s, h | owner, T, m, r, ρ, .structInit x as p s, h => by
    unfold Expr.bind
    exact (Expr.bindAll_follows as h).map fun _ has => has.cons rfl
  | owner, T, m, r, ρ, .callValue c as p s, h => by
    unfold Expr.bind
    refine (Expr.bind_follows c h).bind fun c' T1 hc h1 => ?_
    exact (Expr.bindAll_follows as h1).map fun _ has => (hc.append has).cons rfl
  | owner, T, m, r, ρ, .field e x p s, h => by
    unfold Expr.bind
    exact (Expr.bind_follows e h).map fun _ he => he.cons rfl

theorem Expr.bindOpt_follows : ∀ {owner : Option String} {T : ScopeTree} {m : Made} {r : Region}
    {ρ : List Region} (e : Option (Expr Span)), Stands T m (r :: ρ) →
    Follows (Expr.afterOpt m e) (r :: ρ) T (Expr.bindOpt owner r.scope e) (Expr.readsOpt r ρ m e)
      fun e' => Obeys (Expr.readsOpt r ρ m e) (Expr.stampsOpt e')
  | owner, T, m, r, ρ, none, h => by
    unfold Expr.bindOpt
    exact .pure h rfl
  | owner, T, m, r, ρ, some e, h => by
    unfold Expr.bindOpt
    exact (Expr.bind_follows e h).map fun _ => id

theorem Expr.bindAll_follows : ∀ {owner : Option String} {T : ScopeTree} {m : Made} {r : Region}
    {ρ : List Region} (es : List (Expr Span)), Stands T m (r :: ρ) →
    Follows (Expr.afterAll m es) (r :: ρ) T (Expr.bindAll owner r.scope es) (Expr.readsAll r ρ m es)
      fun es' => Obeys (Expr.readsAll r ρ m es) (Expr.stampsAll es')
  | owner, T, m, r, ρ, [], h => by
    unfold Expr.bindAll
    exact .pure h rfl
  | owner, T, m, r, ρ, e :: es, h => by
    unfold Expr.bindAll
    refine (Expr.bind_follows e h).bind fun e' T1 he h1 => ?_
    exact (Expr.bindAll_follows es h1).map fun _ hes => he.append hes

theorem Stmt.bind_follows : ∀ {owner : Option String} {T : ScopeTree} {m : Made} {r : Region}
    {ρ : List Region} (t : Stmt Span), Stands T m (r :: ρ) →
    Follows (t.after m) (r.past m t :: ρ) T (Stmt.bind owner r.scope t) (t.reads r ρ m)
      fun t' => Obeys (t.reads r ρ m) t'.stamps
  | owner, T, m, r, ρ, .expr e, h | owner, T, m, r, ρ, .yield e p, h => by
    rw [Region.past_of_none rfl]
    unfold Stmt.bind
    exact (Expr.bind_follows e h).map fun _ => id
  | owner, T, m, r, ρ, .typeDecl x t p s, h => by
    rw [Region.past_of_none rfl]
    unfold Stmt.bind
    exact .pure h rfl
  | owner, T, m, r, ρ, .varDecl x t e p s y, h => by
    unfold Stmt.bind
    obtain ⟨h1, hg, hq, he⟩ : Follows _ _ T (Expr.bind owner r.scope e) _ _ :=
      Expr.bind_follows e h
    let z : Symbol := ⟨x, .variable, p, t.map Scheme.mono⟩
    have hg' := grows_declare ((Expr.bind owner r.scope e).run T).2 r.scope z
    refine ⟨?_, hg.trans hg', fun q hq' => (hq q hq').grows hg', he.cons rfl⟩
    refine h1.declare z (r.precede (z, _)) rfl (Region.pick?_precede r z _) fun d hd => ?_
    simp only [Region.candidates, Region.precede, List.mem_append, List.mem_singleton] at hd ⊢
    exact hd.elim (.inl ∘ .inl) (·.imp_left .inr)
  | owner, T, m, r, ρ, .funDecl x fs b t p s s', h => by
    rw [Region.past_of_none rfl]
    unfold Stmt.bind
    refine .inside (ofFormals m m.scopes fs) h fun T1 h1 => ?_
    refine (follows_declareAll h1 (declareFormals_eq m.scopes fs T1)).bind fun _ T2 _ h2 => ?_
    rw [List.length_map] at h2
    exact (Expr.bindOpt_follows b h2).map fun b' hb => hb.cons rfl
  | owner, T, m, r, ρ, .ret e f p s, h => by
    rw [Region.past_of_none rfl]
    unfold Stmt.bind
    exact (Expr.bind_follows e h).map fun _ he => he.cons rfl
  | owner, T, m, r, ρ, .assign a b p, h => by
    rw [Region.past_of_none rfl]
    unfold Stmt.bind
    refine (Expr.bind_follows a h).bind fun a' T1 ha h1 => ?_
    exact (Expr.bind_follows b h1).map fun _ hb => ha.append hb

theorem Stmt.bindAll_follows : ∀ {owner : Option String} {T : ScopeTree} {m : Made} {r : Region}
    {ρ : List Region} (ts : List (Stmt Span)), Stands T m (r :: ρ) →
    Follows (Stmt.afterAll m ts) (r.pastAll m ts :: ρ) T (Stmt.bindAll owner r.scope ts)
      (Stmt.readsAll r ρ m ts) fun ts' => Obeys (Stmt.readsAll r ρ m ts) (Stmt.stampsAll ts')
  | owner, T, m, r, ρ, [], h => by
    unfold Stmt.bindAll
    exact .pure h rfl
  | owner, T, m, r, ρ, t :: ts, h => by
    unfold Stmt.bindAll
    refine (Stmt.bind_follows t h).bind fun t' T1 ht h1 => ?_
    exact (Stmt.bindAll_follows ts h1).map fun _ hts => ht.append hts

end

/-- The root scope as the region of a program in which nothing is declared yet. -/
theorem Lexical.stands_initial : Stands .initial ⟨1, 0⟩ [⟨rootScope, [], []⟩] where
  scopes := rfl
  symbols := rfl
  regions := ⟨⟨Nat.one_pos, fun _ => rfl, nofun, rfl, rfl, fun _ => rfl, nofun⟩, trivial⟩

/-- Binding implements the scoping rule. Every variable read of a program, in reading order, is
stamped with the scope of the innermost region around it and with the symbol that the rule picks, if
it picks any. The scopes of the regions around a read lie in each other, each one level below the
next, up to the root; and the candidates in them are the symbols of the tree. -/
theorem Program.reads_bound (P : Program Span) :
    P.bind.1.stamps.filter Stamp.isRead = P.reads.map Read.stamp ∧
      ∀ q ∈ P.reads, Nested P.bind.2 q.regions ∧
        ∀ r ∈ q.regions, ∀ d ∈ r.candidates, P.bind.2.symbol? d.2 = some d.1 := by
  obtain ⟨h, -⟩ := stands_initial.declareAll (Stmt.listed P) rfl
  rw [← hoistAll_eq] at h
  have hb : Follows _ _ _ (Stmt.bindAll none rootScope P) P.reads _ := Stmt.bindAll_follows P h
  exact ⟨hb.post, hb.placed⟩

end TypeInference
