import TypeInference.Proofs.Scoping.Reads

/-!
# Names that are looked up after binding

Binding does not stamp the callee of a call with a symbol, nor a function, a type or a formal at its
own declaration. A check looks these names up itself, in the tree of the whole program. By then the
regions around the place have got the variables that were still to come when binding passed it.

A `Surrounding` is a region as it looks from such a place, with the variables to come;
`Surrounding.ended` is the region with all of them. `Program.sites` lists the look-ups of a program
with the surroundings of each, and `Program.marks` lists the same look-ups of a bound program with
the scopes that they start from. What a look-up in ended regions finds is told by `captor?`: the
variable to come that takes the name, if there is one, and else what a read in the same place is
stamped with (`denoted?_ended`).
-/

namespace TypeInference

open Lexical

/-! ## Surroundings -/

namespace Lexical

/-- A region as it looks from a point inside it, and the variables of the statement around the point
and of those after it, in order. -/
structure Surrounding where
  region : Region
  pending : List Candidate

/-- The region as it looks from behind its last statement. -/
def Surrounding.ended (σ : Surrounding) : Region :=
  { σ.region with preceding := σ.region.preceding ++ σ.pending }

/-- The variable to come that takes a name from what it denotes inside the surroundings: the last
one of the innermost region that has one, unless the name denotes something further inside. -/
def captor? (name : String) : List Surrounding → Option SymbolId
  | [] => none
  | σ :: κ => (lastNamed? name σ.pending).or
      (if (σ.region.pick? name).isSome then none else captor? name κ)

theorem lastNamed?_append (name : String) (ds es : List Candidate) :
    lastNamed? name (ds ++ es) = (lastNamed? name es).or (lastNamed? name ds) := by
  simp only [lastNamed?, List.reverse_append, List.find?_append, Option.map_or]

/-- A region picks the last of its candidates. -/
theorem Region.pick?_eq (r : Region) (name : String) :
    r.pick? name = lastNamed? name r.candidates :=
  (lastNamed?_append name r.listed r.preceding).symm

theorem lastNamed?_isSome {d : Candidate} {ds : List Candidate} (hd : d ∈ ds) :
    (lastNamed? d.1.name ds).isSome := by
  rw [lastNamed?, Option.isSome_map, List.find?_isSome]
  exact ⟨d, List.mem_reverse.2 hd, decide_eq_true rfl⟩

/-- The candidates of the region were made in the order in which it has them. -/
def Region.Ordered (r : Region) : Prop := r.candidates.Pairwise fun d e => d.2 < e.2

/-- The symbol picked is the last one made of its name. -/
theorem Region.Ordered.pick? {r : Region} (h : r.Ordered) {name : String} {y : SymbolId}
    (hy : r.pick? name = some y) : (∃ d ∈ r.candidates, d.1.name = name ∧ d.2 = y) ∧
      ∀ e ∈ r.candidates, e.1.name = name → e.2 ≤ y := by
  rw [r.pick?_eq] at hy
  obtain ⟨d, hd, rfl⟩ := Option.map_eq_some_iff.1 hy
  obtain ⟨hn, after, before, hr, hafter⟩ := List.find?_eq_some_iff_append.1 hd
  have hc : r.candidates = before.reverse ++ d :: after.reverse := by
    rw [← List.reverse_reverse r.candidates, hr, List.reverse_append, List.reverse_cons,
      List.append_assoc, List.singleton_append]
  rw [Ordered, hc] at h
  rw [hc]
  refine ⟨⟨d, List.mem_append_right _ List.mem_cons_self, of_decide_eq_true hn, rfl⟩,
    fun e he hen => ?_⟩
  rcases List.mem_append.1 he with he | he
  · exact Nat.le_of_lt ((List.pairwise_append.1 h).2.2 e he d List.mem_cons_self)
  · rcases List.mem_cons.1 he with rfl | he
    · exact Nat.le_refl _
    · exact absurd (hafter e (List.mem_reverse.1 he)) (by simp [hen])

/-- A candidate is picked for its name if and only if none of the name was made after it. -/
theorem Region.Ordered.pick?_own {r : Region} (h : r.Ordered) {d : Candidate}
    (hd : d ∈ r.candidates) :
    r.pick? d.1.name = some d.2 ↔ ∀ e ∈ r.candidates, e.1.name = d.1.name → e.2 ≤ d.2 := by
  refine ⟨fun hy => (h.pick? hy).2, fun hlast => ?_⟩
  obtain ⟨y, hy⟩ := Option.isSome_iff_exists.1 (r.pick?_eq d.1.name ▸ lastNamed?_isSome hd)
  obtain ⟨⟨e, he, hn, rfl⟩, hle⟩ := h.pick? hy
  rw [hy, Nat.le_antisymm (hlast e he hn) (hle d hd rfl)]

theorem Surrounding.pick?_ended (σ : Surrounding) (name : String) :
    σ.ended.pick? name = (lastNamed? name σ.pending).or (σ.region.pick? name) := by
  rw [Region.pick?, ended, lastNamed?_append, Option.or_assoc, Region.pick?]

/-- What a name denotes in the ended regions, said from the point inside them. -/
theorem denoted?_ended (name : String) : ∀ σs : List Surrounding,
    denoted? (σs.map Surrounding.ended) name =
      (captor? name σs).or (denoted? (σs.map Surrounding.region) name)
  | [] => rfl
  | σ :: κ => by
    have ih := denoted?_ended name κ
    simp only [denoted?, List.map_cons, List.findSome?_cons] at ih ⊢
    rw [σ.pick?_ended, captor?]
    cases lastNamed? name σ.pending with
    | some y => rfl
    | none =>
      cases σ.region.pick? name with
      | some y => rfl
      | none => simpa using ih

end Lexical

/-- The variables that are declared directly in a list of statements. -/
def Stmt.variables (m : Made) : List (Stmt Span) → List Candidate
  | [] => []
  | t :: ts => (t.declaredVar? m).toList ++ Stmt.variables (t.after m) ts

namespace Lexical

/-! ## Look-ups -/

/-- A look-up of a bound program. -/
structure Mark where
  /-- The kind of the declaration whose own symbol is looked up, or none for a callee. -/
  kind : Option SymbolKind
  name : String
  pos : Span
  /-- The scope from which the name is looked up. -/
  scope : ScopeId
  deriving DecidableEq, Repr

/-- The look-up of a declared symbol in the scope of its declaration. -/
def Mark.own (scope : ScopeId) (z : Symbol) : Mark := ⟨some z.kind, z.name, z.span, scope⟩

/-- What is looked up: the callee of a call, or the symbol of a declaration by itself. -/
inductive Target where
  | callee (name : String) (pos : Span)
  | own (d : Candidate)

def Target.name : Target → String
  | .callee x _ => x
  | .own d => d.1.name

def Target.mark (scope : ScopeId) : Target → Mark
  | .callee x p => ⟨none, x, p, scope⟩
  | .own d => .own scope d.1

/-- A look-up with the surroundings of its place. -/
structure Site where
  target : Target
  inner : Surrounding
  /-- The surroundings of the innermost one, from the inside outward. -/
  outer : List Surrounding

def Site.scope (c : Site) : ScopeId := c.inner.region.scope

def Site.mark (c : Site) : Mark := c.target.mark c.scope

/-- The regions around the place as they look from there, the innermost given first. -/
def Site.regions (c : Site) : List Region := (c.inner :: c.outer).map Surrounding.region

/-- The regions around the place when the program is bound. -/
def Site.ended (c : Site) : List Region := (c.inner :: c.outer).map Surrounding.ended

/-- The functions, types or formals of a region look up their own symbols. -/
def Surrounding.owns (σ : Surrounding) (κ : List Surrounding) : List Site :=
  σ.region.listed.map fun d => ⟨.own d, σ, κ⟩

/-- The surrounding at the beginning of a list of statements. -/
def aroundStmts (m : Made) (scope : ScopeId) (ts : List (Stmt Span)) : Surrounding :=
  ⟨ofStmts m scope ts, Stmt.variables (m.declare (Stmt.listed ts).length) ts⟩

end Lexical

mutual

/-- The look-ups in an expression inside the surroundings `σ :: κ`. -/
def Expr.sites (σ : Surrounding) (κ : List Surrounding) (m : Made) : Expr Span → List Site
  | .literal .. | .var .. => []
  | .unary _ e _ | .deref e _ | .addressOf e _ | .field e _ _ _ | .cast e _ _ => Expr.sites σ κ m e
  | .binary _ a b _ | .comparison _ a b _ =>
    Expr.sites σ κ m a ++ Expr.sites σ κ (Expr.after m a) b
  | .cond c t e _ =>
    Expr.sites σ κ m c ++ Expr.sites σ κ (Expr.after m c) t ++
      Expr.sitesOpt σ κ (Expr.after (Expr.after m c) t) e
  | .alloc _ e _ => Expr.sitesOpt σ κ m e
  | .block b e _ _ =>
    let inner := aroundStmts m.scope m.scopes b
    let m' := m.scope.declare (Stmt.listed b).length
    inner.owns (σ :: κ) ++ Stmt.sitesAll inner.region (σ :: κ) m' b ++
      Expr.sitesOpt ⟨inner.ended, []⟩ (σ :: κ) (Stmt.afterAll m' b) e
  | .call x _ as p _ => ⟨.callee x p, σ, κ⟩ :: Expr.sitesAll σ κ m as
  | .structInit _ as _ _ => Expr.sitesAll σ κ m as
  | .callValue c as _ _ => Expr.sites σ κ m c ++ Expr.sitesAll σ κ (Expr.after m c) as

def Expr.sitesOpt (σ : Surrounding) (κ : List Surrounding) (m : Made) :
    Option (Expr Span) → List Site
  | none => []
  | some e => Expr.sites σ κ m e

def Expr.sitesAll (σ : Surrounding) (κ : List Surrounding) (m : Made) :
    List (Expr Span) → List Site
  | [] => []
  | e :: es => Expr.sites σ κ m e ++ Expr.sitesAll σ κ (Expr.after m e) es

/-- The look-ups in a statement, but for that of the function or type that it declares. -/
def Stmt.sites (σ : Surrounding) (κ : List Surrounding) (m : Made) : Stmt Span → List Site
  | .typeDecl .. => []
  | .expr e | .varDecl _ _ e _ _ _ | .ret e _ _ _ | .yield e _ => Expr.sites σ κ m e
  | .funDecl _ fs b _ _ _ _ =>
    let inner : Surrounding := ⟨ofFormals m m.scopes fs, []⟩
    inner.owns (σ :: κ) ++ Expr.sitesOpt inner (σ :: κ) (m.scope.declare fs.length) b
  | .assign a b _ => Expr.sites σ κ m a ++ Expr.sites σ κ (Expr.after m a) b

/-- The look-ups in a list of statements of the region `r`. -/
def Stmt.sitesAll (r : Region) (κ : List Surrounding) (m : Made) : List (Stmt Span) → List Site
  | [] => []
  | t :: ts =>
    Stmt.sites ⟨r, Stmt.variables m (t :: ts)⟩ κ m t ++
      Stmt.sitesAll (r.past m t) κ (Stmt.after m t) ts

end

/-- The look-ups of a program. Those of the functions and types of a list of statements come before
the others in the list, and those of its formals before the others in a function. -/
def Program.sites (P : Program Span) : List Site :=
  let start : Made := ⟨1, 0⟩
  let whole := aroundStmts start ScopeTree.rootScope P
  whole.owns [] ++ Stmt.sitesAll whole.region [] (start.declare (Stmt.listed P).length) P

/-! ## Marks -/

/-- The look-up of the function or type that a bound statement declares. -/
def Stmt.ownMark? : Stmt Span → Option Mark
  | .funDecl x _ _ _ p s _ => some ⟨some .function, x, p, s⟩
  | .typeDecl x _ p s => some ⟨some .type, x, p, s⟩
  | _ => none

mutual

/-- The look-ups in a bound expression. -/
def Expr.marks : Expr Span → List Mark
  | .literal .. | .var .. => []
  | .unary _ e _ | .deref e _ | .addressOf e _ | .field e _ _ _ | .cast e _ _ => Expr.marks e
  | .binary _ a b _ | .comparison _ a b _ => Expr.marks a ++ Expr.marks b
  | .cond c t e _ => Expr.marks c ++ Expr.marks t ++ Expr.marksOpt e
  | .alloc _ e _ => Expr.marksOpt e
  | .block b e _ _ => b.filterMap Stmt.ownMark? ++ Stmt.marksAll b ++ Expr.marksOpt e
  | .call x _ as p s => ⟨none, x, p, s⟩ :: Expr.marksAll as
  | .structInit _ as _ _ => Expr.marksAll as
  | .callValue c as _ _ => Expr.marks c ++ Expr.marksAll as

def Expr.marksOpt : Option (Expr Span) → List Mark
  | none => []
  | some e => Expr.marks e

def Expr.marksAll : List (Expr Span) → List Mark
  | [] => []
  | e :: es => Expr.marks e ++ Expr.marksAll es

/-- The look-ups in a bound statement, but for that of the function or type that it declares. -/
def Stmt.marks : Stmt Span → List Mark
  | .typeDecl .. => []
  | .expr e | .varDecl _ _ e _ _ _ | .ret e _ _ _ | .yield e _ => Expr.marks e
  | .funDecl _ fs b _ _ _ s => fs.map (fun f => .own s f.symbol) ++ Expr.marksOpt b
  | .assign a b _ => Expr.marks a ++ Expr.marks b

def Stmt.marksAll : List (Stmt Span) → List Mark
  | [] => []
  | t :: ts => Stmt.marks t ++ Stmt.marksAll ts

end

/-- The look-ups of a bound program. -/
def Program.marks (P : Program Span) : List Mark := P.filterMap Stmt.ownMark? ++ Stmt.marksAll P

end TypeInference
