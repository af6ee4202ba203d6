import TypeInference.Proofs.Scoping.Sites

/-!
# Calls through a read

`Program.readCallees` replaces the callee of each call by a read of its name in the same place. This
changes neither what is declared nor where, so the regions around the read are those around the call
(`Program.reads_of_callee`), and the stamp of the read is what binding would make of the callee
(`Program.stamp_of_callee`).
-/

namespace TypeInference

open Lexical

mutual

/-- The expression with a read of its callee's name in the place of each call, as the callee. -/
def Expr.readCallees : Expr Span → Expr Span
  | .literal v p => .literal v p
  | .var x p s y => .var x p s y
  | .unary op e p => .unary op (Expr.readCallees e) p
  | .binary op l r p => .binary op (Expr.readCallees l) (Expr.readCallees r) p
  | .comparison op l r p => .comparison op (Expr.readCallees l) (Expr.readCallees r) p
  | .cond c t e p => .cond (Expr.readCallees c) (Expr.readCallees t) (Expr.readCalleesOpt e) p
  | .deref e p => .deref (Expr.readCallees e) p
  | .addressOf e p => .addressOf (Expr.readCallees e) p
  | .alloc t e p => .alloc t (Expr.readCalleesOpt e) p
  | .block b e p s => .block (Stmt.readCalleesAll b) (Expr.readCalleesOpt e) p s
  | .call x _ as p s => .callValue (.var x p s none) (Expr.readCalleesAll as) p s
  | .callValue c as p s => .callValue (Expr.readCallees c) (Expr.readCalleesAll as) p s
  | .structInit x vs p s => .structInit x (Expr.readCalleesAll vs) p s
  | .field e x p s => .field (Expr.readCallees e) x p s
  | .cast e t p => .cast (Expr.readCallees e) t p

def Expr.readCalleesOpt : Option (Expr Span) → Option (Expr Span)
  | none => none
  | some e => some (Expr.readCallees e)

def Expr.readCalleesAll : List (Expr Span) → List (Expr Span)
  | [] => []
  | e :: es => Expr.readCallees e :: Expr.readCalleesAll es

def Stmt.readCallees : Stmt Span → Stmt Span
  | .expr e => .expr (Expr.readCallees e)
  | .typeDecl x t p s => .typeDecl x t p s
  | .varDecl x t e p s y => .varDecl x t (Expr.readCallees e) p s y
  | .funDecl x fs b t p s s' => .funDecl x fs (Expr.readCalleesOpt b) t p s s'
  | .ret e f p s => .ret (Expr.readCallees e) f p s
  | .yield e p => .yield (Expr.readCallees e) p
  | .assign l r p => .assign (Expr.readCallees l) (Expr.readCallees r) p

def Stmt.readCalleesAll : List (Stmt Span) → List (Stmt Span)
  | [] => []
  | t :: ts => Stmt.readCallees t :: Stmt.readCalleesAll ts

end

/-- The program with a read of its callee's name in the place of each call, as the callee. -/
def Program.readCallees (P : Program Span) : Program Span := Stmt.readCalleesAll P

/-! ## Declarations stay -/

@[simp] theorem Stmt.listed?_readCallees (t : Stmt Span) :
    t.readCallees.listed? = t.listed? := by
  cases t <;> rfl

@[simp] theorem Stmt.listed_readCallees (ts : List (Stmt Span)) :
    Stmt.listed (Stmt.readCalleesAll ts) = Stmt.listed ts := by
  induction ts with
  | nil => rfl
  | cons t ts ih =>
    unfold Stmt.listed at ih ⊢
    rw [Stmt.readCalleesAll, List.filterMap_cons, List.filterMap_cons, Stmt.listed?_readCallees, ih]

mutual

theorem Expr.after_readCallees (m : Made) : ∀ e : Expr Span, e.readCallees.after m = e.after m
  | .literal .. | .var .. => rfl
  | .unary _ e _ | .deref e _ | .addressOf e _ | .field e _ _ _ | .cast e _ _ =>
    Expr.after_readCallees m e
  | .binary _ l r _ | .comparison _ l r _ => by
    simp only [Expr.readCallees, Expr.after, Expr.after_readCallees _ l, Expr.after_readCallees _ r]
  | .cond c t e _ => by
    simp only [Expr.readCallees, Expr.after, Expr.after_readCallees _ c, Expr.after_readCallees _ t,
      Expr.afterOpt_readCallees _ e]
  | .alloc _ e _ => Expr.afterOpt_readCallees m e
  | .block b e _ _ => by
    simp only [Expr.readCallees, Expr.after, Stmt.listed_readCallees, Stmt.afterAll_readCallees _ b,
      Expr.afterOpt_readCallees _ e]
  | .call _ _ as _ _ | .structInit _ as _ _ => Expr.afterAll_readCallees m as
  | .callValue c as _ _ => by
    simp only [Expr.readCallees, Expr.after, Expr.after_readCallees _ c,
      Expr.afterAll_readCallees _ as]

theorem Expr.afterOpt_readCallees (m : Made) : ∀ e : Option (Expr Span),
    Expr.afterOpt m (Expr.readCalleesOpt e) = Expr.afterOpt m e
  | none => rfl
  | some e => Expr.after_readCallees m e

theorem Expr.afterAll_readCallees (m : Made) : ∀ es : List (Expr Span),
    Expr.afterAll m (Expr.readCalleesAll es) = Expr.afterAll m es
  | [] => rfl
  | e :: es => by
    simp only [Expr.readCalleesAll, Expr.afterAll, Expr.after_readCallees _ e,
      Expr.afterAll_readCallees _ es]

theorem Stmt.after_readCallees (m : Made) : ∀ t : Stmt Span, t.readCallees.after m = t.after m
  | .typeDecl .. => rfl
  | .expr e | .ret e _ _ _ | .yield e _ => Expr.after_readCallees m e
  | .varDecl _ _ e _ _ _ => congrArg (Made.declare · 1) (Expr.after_readCallees m e)
  | .funDecl _ fs b _ _ _ _ => Expr.afterOpt_readCallees _ b
  | .assign l r _ => by
    simp only [Stmt.readCallees, Stmt.after, Expr.after_readCallees _ l, Expr.after_readCallees _ r]

theorem Stmt.afterAll_readCallees (m : Made) : ∀ ts : List (Stmt Span),
    Stmt.afterAll m (Stmt.readCalleesAll ts) = Stmt.afterAll m ts
  | [] => rfl
  | t :: ts => by
    simp only [Stmt.readCalleesAll, Stmt.afterAll, Stmt.after_readCallees _ t,
      Stmt.afterAll_readCallees _ ts]

end

namespace Lexical

theorem Region.past_readCallees (r : Region) (m : Made) (t : Stmt Span) :
    r.past m t.readCallees = r.past m t := by
  cases t with
  | varDecl x t e p s y =>
    simp only [past, Stmt.readCallees, Stmt.declaredVar?, Expr.after_readCallees]
  | _ => rfl

theorem Region.pastAll_readCallees : ∀ (ts : List (Stmt Span)) (r : Region) (m : Made),
    r.pastAll m (Stmt.readCalleesAll ts) = r.pastAll m ts
  | [], _, _ => rfl
  | t :: ts, r, m => by
    rw [Stmt.readCalleesAll, pastAll, pastAll, past_readCallees, Stmt.after_readCallees,
      pastAll_readCallees ts]

theorem Region.pastAll_eq : ∀ (ts : List (Stmt Span)) (r : Region) (m : Made),
    r.pastAll m ts = (⟨r, Stmt.variables m ts⟩ : Surrounding).ended
  | [], r, m => by simp only [pastAll, Surrounding.ended, Stmt.variables, List.append_nil]
  | t :: ts, r, m => by
    rw [pastAll, pastAll_eq ts]
    simp only [Surrounding.ended, past, Stmt.variables, List.append_assoc]

/-- Each callee among the sites is read among the reads, inside the same regions. -/
def ReadIn (cs : List Site) (qs : List Read) : Prop :=
  ∀ c ∈ cs, ∀ x p, c.target = .callee x p →
    ⟨x, p, c.inner.region, c.outer.map Surrounding.region⟩ ∈ qs

theorem ReadIn.append {cs cs' : List Site} {qs qs' : List Read} (h : ReadIn cs qs)
    (h' : ReadIn cs' qs') : ReadIn (cs ++ cs') (qs ++ qs') := fun c hc x p hx =>
  (List.mem_append.1 hc).elim (fun hc => List.mem_append_left _ (h c hc x p hx))
    fun hc => List.mem_append_right _ (h' c hc x p hx)

/-- Declarations that look up their own symbols have no callee. -/
theorem ReadIn.owns {σ : Surrounding} {κ : List Surrounding} {cs : List Site} {qs : List Read}
    (h : ReadIn cs qs) : ReadIn (σ.owns κ ++ cs) qs := by
  refine fun c hc x p hx => (List.mem_append.1 hc).elim (fun hc => ?_) fun hc => h c hc x p hx
  obtain ⟨d, -, rfl⟩ := List.mem_map.1 hc
  cases hx

end Lexical

/-! ## The reads -/

mutual

theorem Expr.reads_readCallees : ∀ {σ : Surrounding} {κ : List Surrounding} {m : Made}
    (e : Expr Span), ReadIn (e.sites σ κ m)
      (e.readCallees.reads σ.region (κ.map Surrounding.region) m)
  | σ, κ, m, .literal .. | σ, κ, m, .var .. => nofun
  | σ, κ, m, .unary _ e _ | σ, κ, m, .deref e _ | σ, κ, m, .addressOf e _ | σ, κ, m, .field e _ _ _
  | σ, κ, m, .cast e _ _ => Expr.reads_readCallees e
  | σ, κ, m, .binary _ a b _ | σ, κ, m, .comparison _ a b _ => by
    simp only [Expr.readCallees, Expr.reads, Expr.after_readCallees]
    exact (Expr.reads_readCallees a).append (Expr.reads_readCallees b)
  | σ, κ, m, .cond c t e _ => by
    simp only [Expr.readCallees, Expr.reads, Expr.after_readCallees]
    exact ((Expr.reads_readCallees c).append (Expr.reads_readCallees t)).append
      (Expr.readsOpt_readCallees e)
  | σ, κ, m, .alloc _ e _ => Expr.readsOpt_readCallees e
  | σ, κ, m, .block b e _ _ => by
    simp only [Expr.readCallees, Expr.reads, ofStmts, Stmt.listed_readCallees,
      Stmt.afterAll_readCallees, Region.pastAll_readCallees]
    rw [Expr.sites, List.append_assoc, Region.pastAll_eq]
    have he := Expr.readsOpt_readCallees (σ := ⟨(aroundStmts m.scope m.scopes b).ended, []⟩)
      (κ := σ :: κ) (m := Stmt.afterAll (m.scope.declare (Stmt.listed b).length) b) e
    exact ((Stmt.readsAll_readCallees b).append he).owns
  | σ, κ, m, .call x _ as p _ => by
    refine fun c hc y q hy => ?_
    obtain rfl | hc := List.mem_cons.1 hc
    · cases hy
      exact List.mem_cons_self
    · exact List.mem_cons_of_mem _ (Expr.readsAll_readCallees as c hc y q hy)
  | σ, κ, m, .structInit _ as _ _ => Expr.readsAll_readCallees as
  | σ, κ, m, .callValue c as _ _ => by
    simp only [Expr.readCallees, Expr.reads, Expr.after_readCallees]
    exact (Expr.reads_readCallees c).append (Expr.readsAll_readCallees as)

theorem Expr.readsOpt_readCallees : ∀ {σ : Surrounding} {κ : List Surrounding} {m : Made}
    (e : Option (Expr Span)), ReadIn (Expr.sitesOpt σ κ m e)
      (Expr.readsOpt σ.region (κ.map Surrounding.region) m (Expr.readCalleesOpt e))
  | _, _, _, none => nofun
  | _, _, _, some e => Expr.reads_readCallees e

theorem Expr.readsAll_readCallees : ∀ {σ : Surrounding} {κ : List Surrounding} {m : Made}
    (es : List (Expr Span)), ReadIn (Expr.sitesAll σ κ m es)
      (Expr.readsAll σ.region (κ.map Surrounding.region) m (Expr.readCalleesAll es))
  | σ, κ, m, [] => nofun
  | σ, κ, m, e :: es => by
    simp only [Expr.readCalleesAll, Expr.readsAll, Expr.after_readCallees]
    exact (Expr.reads_readCallees e).append (Expr.readsAll_readCallees es)

theorem Stmt.reads_readCallees : ∀ {σ : Surrounding} {κ : List Surrounding} {m : Made}
    (t : Stmt Span), ReadIn (t.sites σ κ m)
      (t.readCallees.reads σ.region (κ.map Surrounding.region) m)
  | σ, κ, m, .typeDecl .. => nofun
  | σ, κ, m, .expr e | σ, κ, m, .varDecl _ _ e _ _ _ | σ, κ, m, .ret e _ _ _
  | σ, κ, m, .yield e _ =>
    Expr.reads_readCallees e
  | σ, κ, m, .funDecl _ fs b _ _ _ _ =>
    .owns (Expr.readsOpt_readCallees (σ := ⟨ofFormals m m.scopes fs, []⟩) (κ := σ :: κ) b)
  | σ, κ, m, .assign a b _ => by
    simp only [Stmt.readCallees, Stmt.reads, Expr.after_readCallees]
    exact (Expr.reads_readCallees a).append (Expr.reads_readCallees b)

theorem Stmt.readsAll_readCallees : ∀ {r : Region} {κ : List Surrounding} {m : Made}
    (ts : List (Stmt Span)), ReadIn (Stmt.sitesAll r κ m ts)
      (Stmt.readsAll r (κ.map Surrounding.region) m (Stmt.readCalleesAll ts))
  | r, κ, m, [] => nofun
  | r, κ, m, t :: ts => by
    simp only [Stmt.readCalleesAll, Stmt.readsAll, Stmt.after_readCallees, Region.past_readCallees]
    exact (Stmt.reads_readCallees (σ := ⟨r, _⟩) t).append (Stmt.readsAll_readCallees ts)

end

/-- A read in the place of a call stands inside the same regions. -/
theorem Program.reads_of_callee (P : Program Span) : ReadIn P.sites P.readCallees.reads := by
  simp only [Program.reads, Program.readCallees, ofStmts, Stmt.listed_readCallees]
  exact (Stmt.readsAll_readCallees (κ := []) P).owns

/-- Binding stamps it with what the name denotes there. -/
theorem Program.stamp_of_callee (P : Program Span) {c : Site} (hc : c ∈ P.sites) {x : String}
    {p : Span} (hx : c.target = .callee x p) :
    .var p c.scope (denoted? c.regions x) ∈ P.readCallees.bind.1.stamps := by
  obtain ⟨h, -⟩ := stands_initial.declareAll (Stmt.listed P.readCallees) rfl
  rw [← hoistAll_eq] at h
  have hb : Obeys P.readCallees.reads P.readCallees.bind.1.stamps :=
    (Stmt.bindAll_follows P.readCallees h).post
  have hq := List.mem_map_of_mem (f := Read.stamp) (P.reads_of_callee c hc x p hx)
  rw [← hb] at hq
  exact (List.mem_filter.1 hq).1

end TypeInference
