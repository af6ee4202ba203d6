import Mathlib.Data.List.Pairwise
import TypeInference.Proofs.Program.Placement

/-!
# Binding the root scope

`Program.HidesNoOpenSlot`: no variable of the root scope takes its name from a declaration whose
slot is for inference to fill. Then a symbol that was ever bound in the root scope is bound there in
the finished tree, or has a written type (`RootRun.lasting`); and every statement of the program
lies in a region of its own (`AllPlaced`, `Program.bind_placed`).
-/

namespace TypeInference

open ScopeTree

/-! ## Which slots are hidden -/

/-- The variable that a statement declares. -/
def Stmt.letName? : Stmt Span → Option String
  | .varDecl x _ _ _ _ _ => some x
  | _ => none

/-- The function whose slot is filled or replaced when it is inferred: one with a body, or one that
is announced without a type. -/
def Stmt.openFunction? : Stmt Span → Option String
  | .funDecl x _ b t _ _ _ => if b.isSome ∨ t = none then some x else none
  | _ => none

/-- The variable that a statement declares without a written type. -/
def Stmt.openVariable? : Stmt Span → Option String
  | .varDecl x none _ _ _ _ => some x
  | _ => none

/-- No variable of the root scope has the name of an open function there, or of an open variable
declared above it. -/
structure Program.HidesNoOpenSlot (P : Program Span) : Prop where
  ofFunction : ∀ s ∈ P, ∀ t ∈ P, ∀ x ∈ s.openFunction?, t.letName? ≠ some x
  ofVariable : P.Pairwise fun s t => ∀ x ∈ s.openVariable?, t.letName? ≠ some x

instance (P : Program Span) : Decidable P.HidesNoOpenSlot :=
  decidable_of_iff (_ ∧ _) ⟨fun h => ⟨h.1, h.2⟩, fun h => ⟨h.1, h.2⟩⟩

/-- The name that a statement declares. -/
def Stmt.declaredName? : Stmt Span → Option String
  | .varDecl x _ _ _ _ _ | .funDecl x _ _ _ _ _ _ | .typeDecl x _ _ _ => some x
  | _ => none

/-- The root scope declares no name twice. -/
def Program.DeclaresOnce (P : Program Span) : Prop :=
  P.Pairwise fun s t => ∀ x ∈ s.declaredName?, t.declaredName? ≠ some x

instance (P : Program Span) : Decidable P.DeclaresOnce :=
  inferInstanceAs (Decidable (List.Pairwise _ _))

theorem Stmt.declaredName?_of_letName? {t : Stmt Span} {x : String} (h : t.letName? = some x) :
    t.declaredName? = some x := by
  cases t <;> first | exact h | cases h

theorem Stmt.declaredName?_of_openVariable? {t : Stmt Span} {x : String}
    (h : t.openVariable? = some x) : t.declaredName? = some x := by
  unfold openVariable? at h
  split at h
  · exact h
  · cases h

theorem Stmt.declaredName?_of_openFunction? {t : Stmt Span} {x : String}
    (h : t.openFunction? = some x) : t.declaredName? = some x ∧ t.letName? = none := by
  unfold openFunction? at h
  split at h
  · split at h
    · exact ⟨h, rfl⟩
    · cases h
  · cases h

theorem Program.DeclaresOnce.hidesNoOpenSlot {P : Program Span} (h : P.DeclaresOnce) :
    P.HidesNoOpenSlot where
  ofFunction s hs t ht x hx hl := by
    obtain ⟨hd, hn⟩ := Stmt.declaredName?_of_openFunction? hx
    have hne : s ≠ t := fun he => by
      rw [← he, hn] at hl
      cases hl
    have : Std.Symm fun s t : Stmt Span => ∀ x ∈ s.declaredName?, t.declaredName? ≠ some x :=
      ⟨fun s t h x hx hs => h x hs hx⟩
    exact List.Pairwise.forall h hs ht hne x hd (Stmt.declaredName?_of_letName? hl)
  ofVariable := h.imp fun h x hx hl =>
    h x (Stmt.declaredName?_of_openVariable? hx) (Stmt.declaredName?_of_letName? hl)

/-- Every type written in the program is free of variables. -/
def Program.TypesClosed (P : Program Span) : Prop := Stmt.EveryAll closedTypes none P

instance (P : Program Span) : Decidable P.TypesClosed :=
  inferInstanceAs (Decidable (Stmt.EveryAll _ _ _))

/-! ## The root scope -/

namespace ScopeTree

/-- The symbol is bound in the root scope. -/
def Rooted (T : ScopeTree) (y : SymbolId) : Prop :=
  ∃ x, (T.bindings rootScope).get? x = some y

/-- The symbol is that of a function or a type. -/
def IsHoisted (T : ScopeTree) (y : SymbolId) : Prop :=
  ∃ z, T.symbol? y = some z ∧ (z.kind = .function ∨ z.kind = .type)

/-- The symbol is bound in the root scope or has a type. -/
def Lasting (T : ScopeTree) (y : SymbolId) : Prop := T.Rooted y ∨ (T.scheme? y).isSome

/-- A name of the root scope is bound to a symbol of that name. -/
def NamesRoot (T : ScopeTree) : Prop :=
  ∀ x y, (T.bindings rootScope).get? x = some y → ∃ z, T.symbol? y = some z ∧ z.name = x

/-- What is known of the root scope of a program while the statements `rest` are still to be bound.
-/
structure RootBindings (P rest : List (Stmt Span)) (T : ScopeTree) : Prop where
  root : ∃ c, T.scope? rootScope = some c ∧ c.parent = none ∧ c.level = 1
  closed : T.SlotsClosed
  written : ∀ x y, (T.bindings rootScope).get? x = some y →
    (T.scheme? y).isSome ∨ ∀ t ∈ rest, t.letName? ≠ some x
  hoisted : ∀ x y, (T.bindings rootScope).get? x = some y →
    T.IsHoisted y ∨ ∃ t ∈ P, t.letName? = some x
  named : T.NamesRoot

section
variable {P rest : List (Stmt Span)} {T T' : ScopeTree} {kept : ScopeId → Prop}

theorem RootBindings.below (h : RootBindings P rest T) : Below T T :=
  ⟨h.root, .refl T, .empty .., h.closed⟩

theorem Agrees.scheme? (h : Agrees kept T T') {y : SymbolId} (hy : (T.scheme? y).isSome) :
    (T'.scheme? y).isSome := by
  obtain ⟨σ, hσ⟩ := Option.isSome_iff_exists.1 hy
  obtain ⟨z, hz, hσ⟩ := Option.bind_eq_some_iff.1 hσ
  simp [ScopeTree.scheme?, h.symbol? hz, hσ]

theorem Agrees.isHoisted (h : Agrees kept T T') {y : SymbolId} (hy : T.IsHoisted y) :
    T'.IsHoisted y := by
  obtain ⟨z, hz, hk⟩ := hy
  exact ⟨z, h.symbol? hz, hk⟩

/-- A name declared in the root scope, whose slot is written or whose name no variable to come has.
-/
theorem RootBindings.declare (h : RootBindings P rest T) {z : Symbol} {rest' : List (Stmt Span)}
    (hr : ∀ t ∈ rest', t ∈ rest)
    (hz : ∀ σ, z.scheme = some σ → σ.vars = [] ∧ σ.ty.occurrences = [])
    (hw : z.scheme.isSome ∨ ∀ t ∈ rest', t.letName? ≠ some z.name)
    (hk : (z.kind = .function ∨ z.kind = .type) ∨ ∃ t ∈ P, t.letName? = some z.name) :
    RootBindings P rest' (T.declare rootScope z).2 := by
  obtain ⟨c, hc, hp, hl⟩ := h.root
  have hb := bindings_declare (lt_of_scope? hc) z
  have ha : Agrees (fun a => a ≠ rootScope) T (T.declare rootScope z).2 :=
    agrees_declare T z (· rfl)
  have hnew : (T.declare rootScope z).2.symbol? T.symbols.size = some z := by
    rw [symbol?_declare, if_pos rfl]
  refine ⟨⟨{ c with bindings := c.bindings.insert z.name T.symbols.size },
      by rw [scope?_declare, if_pos rfl, hc]; rfl, hp, hl⟩, h.closed.declare _ hz,
    fun x y hy => ?_, fun x y hy => ?_, fun x y hy => ?_⟩ <;> rw [hb] at hy <;>
    by_cases hx : z.name = x
  · subst hx
    rw [Assoc.get?_insert_self] at hy
    cases hy
    exact hw.imp_left fun hs => by simpa [ScopeTree.scheme?, hnew] using hs
  · rw [Assoc.get?_insert_of_ne _ hx] at hy
    exact (h.written x y hy).imp ha.scheme? fun hn t ht => hn t (hr t ht)
  · subst hx
    rw [Assoc.get?_insert_self] at hy
    cases hy
    exact hk.imp_left fun hk => ⟨z, hnew, hk⟩
  · rw [Assoc.get?_insert_of_ne _ hx] at hy
    exact (h.hoisted x y hy).imp_left ha.isHoisted
  · subst hx
    rw [Assoc.get?_insert_self] at hy
    cases hy
    exact ⟨z, hnew, rfl⟩
  · rw [Assoc.get?_insert_of_ne _ hx] at hy
    exact (h.named x y hy).imp fun _ hz => ⟨ha.symbol? hz.1, hz.2⟩

/-- A step that leaves the root scope as it is. -/
theorem RootBindings.step (h : RootBindings P rest T) {rest' : List (Stmt Span)}
    (hr : ∀ t ∈ rest', t ∈ rest) (hT : Below T T') : RootBindings P rest' T' where
  root := hT.scope?_root
  closed := hT.closed
  written x y hy := by
    rw [hT.bindings_root] at hy
    exact (h.written x y hy).imp hT.agrees.scheme? fun hn t ht => hn t (hr t ht)
  hoisted x y hy := by
    rw [hT.bindings_root] at hy
    exact (h.hoisted x y hy).imp_left hT.agrees.isHoisted
  named x y hy := by
    rw [hT.bindings_root] at hy
    exact (h.named x y hy).imp fun _ hz => ⟨hT.agrees.symbol? hz.1, hz.2⟩

/-- Declaring the functions and types of the program. -/
theorem RootBindings.hoistAll (hP : Program.HidesNoOpenSlot P) : ∀ (ts : List (Stmt Span))
    {T : ScopeTree}, (∀ t ∈ ts, t ∈ P) → Stmt.EveryAll closedTypes none ts → RootBindings P P T →
    RootBindings P P (hoistAll rootScope ts T)
  | [], T, _, _, h => h
  | t :: ts, T, hts, ⟨hc, hcs⟩, h => by
    obtain ⟨ht, hts⟩ := List.forall_mem_cons.1 hts
    refine RootBindings.hoistAll hP ts hts hcs ?_
    cases t with
    | funDecl x fs b u p s1 s2 =>
      refine h.declare (fun _ => id) (closed_mono hc.1) ?_ (.inl (.inl rfl))
      cases u with
      | some u => exact .inl rfl
      | none => exact .inr fun t' ht' => hP.ofFunction _ ht t' ht' x (by simp [Stmt.openFunction?])
    | typeDecl x u p s1 =>
      refine h.declare (fun _ => id) (closed_mono (t := some (u.declaredAs x)) fun v hv => ?_)
        (.inl rfl) (.inl (.inr rfl))
      cases hv
      rw [Ty.occurrences_declaredAs]
      exact hc
    | _ => exact h

theorem rootBindings_initial (P rest : List (Stmt Span)) : RootBindings P rest initial where
  root := ⟨_, rfl, rfl, rfl⟩
  closed y z σ hy := by simp [initial, ScopeTree.symbol?] at hy
  written x y hy := by simp [initial, bindings, scope?, rootScope] at hy
  hoisted x y hy := by simp [initial, bindings, scope?, rootScope] at hy
  named x y hy := by simp [initial, bindings, scope?, rootScope] at hy

end

end ScopeTree

/-! ## One statement of the root scope -/

/-- The parts of a statement of the root scope lie in the region `V`; a function with a body is
declared in the root scope, under the name of a function or a type. -/
def TopPlaced (V : Place) : Stmt Span → Prop
  | .funDecl _ _ none _ _ _ _ => True
  | .funDecl x fs (some b) _ _ s s' => s = rootScope ∧ V.Formals s' fs ∧
    Expr.Every (Placed V) (some x) b ∧
    ∀ y, (V.tree.bindings rootScope).get? x = some y → V.tree.IsHoisted y
  | t => Stmt.Every (Placed V) none t

/-- What binding the statement `t` of the root scope does to the tree `T`. -/
structure RootStep (V : Place) (P rest : List (Stmt Span)) (t : Stmt Span) (T : ScopeTree)
    (r : Stmt Span × ScopeTree) : Prop where
  bindings : RootBindings P rest r.2
  agrees : Agrees (fun a => a ≠ rootScope) T r.2
  region : Region r.2 T.scopes.size r.2.scopes.size T.symbols.size r.2.symbols.size
  rooted : ∀ y, T.Rooted y → r.2.Rooted y ∨ (T.scheme? y).isSome
  placed : V.Sees T r.2 → (∀ x, t.openFunction? = some x →
    ∀ y, (V.tree.bindings rootScope).get? x = some y → V.tree.IsHoisted y) → TopPlaced V r.1

section
variable {V : Place} {P rest : List (Stmt Span)} {t : Stmt Span} {T : ScopeTree}

/-- A statement that binds nothing in the root scope. -/
theorem RootStep.of_below (h : RootBindings P (t :: rest) T) {r : Stmt Span × ScopeTree}
    (hb : Below T r.2) (hp : V.Sees T r.2 → (∀ x, t.openFunction? = some x →
      ∀ y, (V.tree.bindings rootScope).get? x = some y → V.tree.IsHoisted y) → TopPlaced V r.1) :
    RootStep V P rest t T r where
  bindings := h.step (fun _ => List.mem_cons_of_mem t) hb
  agrees := hb.agrees.mono fun _ _ => trivial
  region := hb.region
  rooted y := fun ⟨x, hx⟩ => .inl ⟨x, by rwa [hb.bindings_root]⟩
  placed := hp

/-- A variable of the root scope, declared after its initializer. -/
theorem RootStep.of_declare (h : RootBindings P (t :: rest) T) (ht : t ∈ P) {T1 : ScopeTree}
    (hb : Below T T1) {x : String} {u : Option Ty} {p : Span} {t' : Stmt Span}
    (hx : t.letName? = some x) (hu : ∀ v ∈ u, v.occurrences = [])
    (hw : u.isSome ∨ ∀ t' ∈ rest, t'.letName? ≠ some x)
    (hp : V.Sees T (T1.declare rootScope ⟨x, .variable, p, u.map Scheme.mono⟩).2 →
      TopPlaced V t') :
    RootStep V P rest t T (t', (T1.declare rootScope ⟨x, .variable, p, u.map Scheme.mono⟩).2) where
  bindings := (h.step (fun _ => id) hb).declare (fun _ => List.mem_cons_of_mem t) (closed_mono hu)
    (hw.imp_left fun hs => by simpa using hs) (.inr ⟨t, ht, hx⟩)
  agrees := (hb.agrees.mono fun _ _ => trivial).trans (agrees_declare T1 _ (· rfl))
  region := by
    have := hb.region.declare hb.agrees.symbols_le rootScope ⟨x, .variable, p, u.map Scheme.mono⟩
    rwa [← size_scopes_declare T1 rootScope ⟨x, .variable, p, u.map Scheme.mono⟩] at this
  rooted y := fun ⟨x', hx'⟩ => by
    obtain ⟨c, hc, -⟩ := hb.scope?_root
    by_cases he : x = x'
    · subst he
      exact .inr ((h.written x y hx').resolve_right fun hn => hn t List.mem_cons_self hx)
    · refine .inl ⟨x', ?_⟩
      rw [bindings_declare (lt_of_scope? hc), Assoc.get?_insert_of_ne _ he, hb.bindings_root, hx']
  placed hsee _ := hp hsee

theorem Stmt.bind_root (hV : V.From T) (h : RootBindings P (t :: rest) T) (ht : t ∈ P)
    (hc : Stmt.Every closedTypes none t)
    (hvar : ∀ x, t.openVariable? = some x → ∀ t' ∈ rest, t'.letName? ≠ some x) :
    RootStep V P rest t T ((Stmt.bind none rootScope t).run T) := by
  obtain ⟨c, hroot, -⟩ := h.root
  have hs : Inside T T rootScope := ⟨lt_of_scope? hroot, .inl rfl⟩
  cases t with
  | expr e | typeDecl x u p s0 | ret e f p s0 | yield e p | assign l r p =>
    have hb := Stmt.bind_placed hV _ hc h.below hs (.inr trivial)
    unfold Stmt.bind at hb ⊢
    exact .of_below h hb.below fun hsee _ => hb.post hsee
  | varDecl x u e p s0 y =>
    unfold Stmt.bind
    have he := Expr.bind_placed hV e hc.2 h.below hs
    refine .of_declare h ht he.below rfl hc.1 ?_ fun hsee => ?_
    · cases u with
      | some u => exact .inl rfl
      | none => exact .inr (hvar x rfl)
    · refine ⟨declared_placed hV he.below (hsee.second he.agrees.scopes_le), he.post ?_⟩
      have ha : Agrees (fun a => a ≠ rootScope) ((Expr.bind none rootScope e).run T).2
          (declare _ rootScope ⟨x, .variable, p, u.map Scheme.mono⟩).2 :=
        agrees_declare _ _ (· rfl)
      exact hsee.first ha (ne_of_size_le hs.lt)
  | funDecl x fs b u p s0 s1 =>
    rw [Stmt.bind_funDecl]
    have hb : Binds V T (fun _ => True) T (bindBody x rootScope fs b) _ :=
      bindBody_placed hV h.below hs fun h' hs' => Expr.bindOpt_placed hV b hc.2 h' hs'
    refine .of_below h hb.below fun hsee hroot => ?_
    have hpost := hb.post hsee
    cases b with
    | none => exact trivial
    | some b => exact ⟨rfl, hpost.1, hpost.2, hroot x rfl⟩

end

/-! ## All statements -/

/-- Each statement lies in a region of the tree `F`; the symbols of the first start at `n`, those of
the next ones where they end. -/
inductive AllPlaced (F : ScopeTree) : Nat → List (Stmt Span) → Prop
  | nil (n : Nat) : AllPlaced F n []
  | cons {V : Place} {t : Stmt Span} {ts : List (Stmt Span)} : V.tree = F → V.known = F.Lasting →
      F.Region V.firstScope V.endScope V.firstSymbol V.endSymbol → V.firstSymbol ≤ V.endSymbol →
      TopPlaced V t → AllPlaced F V.endSymbol ts → AllPlaced F V.firstSymbol (t :: ts)

/-- What binding statements of the root scope makes of the tree `T`. -/
structure RootRun (P : List (Stmt Span)) (T : ScopeTree) (r : List (Stmt Span) × ScopeTree) :
    Prop where
  bindings : RootBindings P [] r.2
  agrees : Agrees (fun a => a ≠ rootScope) T r.2
  lasting : ∀ y, T.Rooted y → r.2.Lasting y
  placed : AllPlaced r.2 T.symbols.size r.1

theorem Stmt.run_bindAll_cons (owner : Option String) (s : ScopeId) (t : Stmt Span)
    (ts : List (Stmt Span)) (T : ScopeTree) : (Stmt.bindAll owner s (t :: ts)).run T =
      (((Stmt.bind owner s t).run T).1 ::
        ((Stmt.bindAll owner s ts).run ((Stmt.bind owner s t).run T).2).1,
        ((Stmt.bindAll owner s ts).run ((Stmt.bind owner s t).run T).2).2) := rfl

/-- Binding keeps the names that statements declare. -/
theorem Stmt.map_declaredName?_bindAll (owner : Option String) (s : ScopeId) :
    ∀ (ts : List (Stmt Span)) (T : ScopeTree),
      ((Stmt.bindAll owner s ts).run T).1.map declaredName? = ts.map declaredName?
  | [], T => by
    unfold Stmt.bindAll
    rfl
  | t :: ts, T => by
    have ht : ((Stmt.bind owner s t).run T).1.declaredName? = t.declaredName? := by
      cases t <;> unfold Stmt.bind <;> rfl
    rw [Stmt.run_bindAll_cons, List.map_cons, List.map_cons, ht,
      Stmt.map_declaredName?_bindAll owner s ts]

theorem Program.DeclaresOnce.bind {P : Program Span} (h : P.DeclaresOnce) :
    P.bind.1.DeclaresOnce := by
  have hn : P.bind.1.map Stmt.declaredName? = P.map Stmt.declaredName? :=
    Stmt.map_declaredName?_bindAll ..
  have hp : (P.map Stmt.declaredName?).Pairwise fun a b => ∀ x ∈ a, b ≠ some x :=
    List.pairwise_map.2 h
  rw [← hn] at hp
  exact List.pairwise_map.1 hp

theorem Stmt.bindAll_root {P : Program Span} (hP : P.HidesNoOpenSlot) : ∀ (ts : List (Stmt Span))
    {T : ScopeTree}, RootBindings P ts T → (∀ t ∈ ts, t ∈ P) → Stmt.EveryAll closedTypes none ts →
    ts.Pairwise (fun s t => ∀ x ∈ s.openVariable?, t.letName? ≠ some x) →
    RootRun P T ((Stmt.bindAll none rootScope ts).run T)
  | [], T, h, _, _, _ => by
    unfold Stmt.bindAll
    exact ⟨h, .refl T, fun y => .inl, .nil _⟩
  | t :: ts, T, h, hts, ⟨hc, hcs⟩, hp => by
    obtain ⟨ht, hts⟩ := List.forall_mem_cons.1 hts
    obtain ⟨hvar, hp⟩ := List.pairwise_cons.1 hp
    have step : ∀ V : Place, V.From T → RootStep V P ts t T ((Stmt.bind none rootScope t).run T) :=
      fun V hV => Stmt.bind_root hV h ht hc fun x hx t' ht' => hvar t' ht' x hx
    generalize hr : (Stmt.bind none rootScope t).run T = r at step
    obtain ⟨t', T1⟩ := r
    have h1 := step
      ⟨T1, T.scopes.size, T1.scopes.size, T.symbols.size, T1.symbols.size, fun _ => True⟩
      ⟨rfl, rfl, fun _ _ _ => trivial⟩
    have ih := Stmt.bindAll_root hP ts h1.bindings hts hcs hp
    generalize hr' : (Stmt.bindAll none rootScope ts).run T1 = r' at ih
    obtain ⟨ts', F⟩ := r'
    rw [Stmt.run_bindAll_cons, hr, hr']
    have hlast : ∀ y, T.Rooted y → F.Lasting y := fun y hy => by
      obtain hy | hy := h1.rooted y hy
      · exact ih.lasting y hy
      · exact .inr (ih.agrees.scheme? (h1.agrees.scheme? hy))
    refine ⟨ih.bindings, h1.agrees.trans ih.agrees, hlast, ?_⟩
    -- the region of the first statement, as the finished tree has it
    have hne : ∀ a : Nat, T.scopes.size ≤ a → a ≠ rootScope := by
      obtain ⟨c, hc, -⟩ := h.root
      exact ne_of_size_le (lt_of_scope? hc)
    let V : Place := ⟨F, T.scopes.size, T1.scopes.size, T.symbols.size, T1.symbols.size, F.Lasting⟩
    have hV : V.From T := ⟨rfl, rfl, fun x y hy => hlast y ⟨x, hy⟩⟩
    have hsee : V.Sees T T1 := ⟨ih.agrees.mono hne, Nat.le_refl _, Nat.le_refl _⟩
    refine .cons (V := V) rfl rfl (h1.region.agrees (Nat.le_refl _) hsee.agrees)
      h1.agrees.symbols_le ((step V hV).placed hsee fun x hx y hy => ?_) ih.placed
    refine (ih.bindings.hoisted x y hy).resolve_right fun ⟨s, hs, hsx⟩ => ?_
    exact hP.ofFunction t ht s hs x hx hsx

/-- The statements of a program that hides no open slot lie in regions of the tree they were bound
in. -/
theorem Program.bind_placed {P : Program Span} (hP : P.HidesNoOpenSlot) (hc : P.TypesClosed) :
    RootBindings P [] P.bind.2 ∧ ∃ n, AllPlaced P.bind.2 n P.bind.1 := by
  have h0 := RootBindings.hoistAll hP P (fun _ => id) hc (rootBindings_initial P P)
  have h := Stmt.bindAll_root hP P h0 (fun _ => id) hc hP.ofVariable
  exact ⟨h.bindings, _, h.placed⟩

end TypeInference
