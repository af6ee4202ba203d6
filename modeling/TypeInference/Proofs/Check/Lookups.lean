import TypeInference.Proofs.Check.Obligations
import TypeInference.Proofs.Scoping.Sites

/-!
# What a check looks up

`Looked F ms`: a walk has left the scopes of the tree `F` as they are, and each symbol that it has
noted for a callee or for a declaration by itself is what the name denotes in `F`, for one of the
look-ups `ms` of the program. Every operation of the walk keeps this (`lookups_rules`); so it holds
of every check of a program (`Program.lookups_marked`).
-/

namespace TypeInference

open ScopeTree Lexical

/-! ## Nodes -/

/-- The look-ups that the check of a node makes are among `ms`. -/
def Node.Marked (ms : List Mark) : Node → Prop
  | .expr (.call x _ _ p s) => ⟨none, x, p, s⟩ ∈ ms
  | .stmt (.typeDecl x _ p s) => ⟨some .type, x, p, s⟩ ∈ ms
  | .stmt (.funDecl x fs _ _ p s s') =>
    ⟨some .function, x, p, s⟩ ∈ ms ∧ ∀ f ∈ fs, .own s' f.symbol ∈ ms
  | _ => True

section
variable {ms : List Mark}

mutual

theorem Expr.every_marked (owner : Option String) : ∀ e : Expr Span, (∀ μ ∈ e.marks, μ ∈ ms) →
    Expr.Every (fun _ => Node.Marked ms) owner e
  | .literal .., _ | .var .., _ => trivial
  | .unary _ e _, h | .deref e _, h | .addressOf e _, h | .field e _ _ _, h | .cast e _ _, h =>
    ⟨trivial, Expr.every_marked owner e h⟩
  | .binary _ l r _, h | .comparison _ l r _, h =>
    have ⟨hl, hr⟩ := List.forall_mem_append.1 h
    ⟨trivial, Expr.every_marked owner l hl, Expr.every_marked owner r hr⟩
  | .cond c t e _, h =>
    have ⟨hct, he⟩ := List.forall_mem_append.1 h
    have ⟨hc, ht⟩ := List.forall_mem_append.1 hct
    ⟨trivial, Expr.every_marked owner c hc, Expr.every_marked owner t ht,
      Expr.everyOpt_marked owner e he⟩
  | .alloc _ e _, h => ⟨trivial, Expr.everyOpt_marked owner e h⟩
  | .block b e _ _, h =>
    have ⟨hb, he⟩ := List.forall_mem_append.1 h
    ⟨trivial, Stmt.everyAll_marked owner b hb, Expr.everyOpt_marked owner e he⟩
  | .call _ _ as _ _, h =>
    have ⟨hc, has⟩ := List.forall_mem_cons.1 h
    ⟨hc, Expr.everyAll_marked owner as has⟩
  | .structInit _ as _ _, h => ⟨trivial, Expr.everyAll_marked owner as h⟩
  | .callValue c as _ _, h =>
    have ⟨hc, has⟩ := List.forall_mem_append.1 h
    ⟨trivial, Expr.every_marked owner c hc, Expr.everyAll_marked owner as has⟩

theorem Expr.everyOpt_marked (owner : Option String) : ∀ e : Option (Expr Span),
    (∀ μ ∈ Expr.marksOpt e, μ ∈ ms) → Expr.EveryOpt (fun _ => Node.Marked ms) owner e
  | none, _ => trivial
  | some e, h => Expr.every_marked owner e h

theorem Expr.everyAll_marked (owner : Option String) : ∀ es : List (Expr Span),
    (∀ μ ∈ Expr.marksAll es, μ ∈ ms) → Expr.EveryAll (fun _ => Node.Marked ms) owner es
  | [], _ => trivial
  | e :: es, h =>
    have ⟨he, hes⟩ := List.forall_mem_append.1 h
    ⟨Expr.every_marked owner e he, Expr.everyAll_marked owner es hes⟩

theorem Stmt.every_marked (owner : Option String) : ∀ t : Stmt Span, (∀ μ ∈ t.ownMark?, μ ∈ ms) →
    (∀ μ ∈ t.marks, μ ∈ ms) → Stmt.Every (fun _ => Node.Marked ms) owner t
  | .typeDecl .., ho, _ => ho _ rfl
  | .expr e, _, h | .varDecl _ _ e _ _ _, _, h | .ret e _ _ _, _, h | .yield e _, _, h =>
    ⟨trivial, Expr.every_marked owner e h⟩
  | .funDecl x _ b _ _ _ _, ho, h =>
    have ⟨hfs, hb⟩ := List.forall_mem_append.1 h
    ⟨⟨ho _ rfl, List.forall_mem_map.1 hfs⟩, Expr.everyOpt_marked (some x) b hb⟩
  | .assign l r _, _, h =>
    have ⟨hl, hr⟩ := List.forall_mem_append.1 h
    ⟨trivial, Expr.every_marked owner l hl, Expr.every_marked owner r hr⟩

theorem Stmt.everyAll_marked (owner : Option String) : ∀ ts : List (Stmt Span),
    (∀ μ ∈ ts.filterMap Stmt.ownMark? ++ Stmt.marksAll ts, μ ∈ ms) →
    Stmt.EveryAll (fun _ => Node.Marked ms) owner ts
  | [], _ => trivial
  | t :: ts, h => by
    obtain ⟨hos, hts⟩ := List.forall_mem_append.1 h
    obtain ⟨ht, hts⟩ := List.forall_mem_append.1 hts
    have ho : ∀ μ ∈ t.ownMark?, μ ∈ ms := fun μ hμ => hos μ (List.mem_filterMap.2
      ⟨t, List.mem_cons_self, hμ⟩)
    refine ⟨Stmt.every_marked owner t ho ht, Stmt.everyAll_marked owner ts ?_⟩
    refine List.forall_mem_append.2 ⟨fun μ hμ => hos μ ?_, hts⟩
    obtain ⟨u, hu, hμ⟩ := List.mem_filterMap.1 hμ
    exact List.mem_filterMap.2 ⟨u, List.mem_cons_of_mem _ hu, hμ⟩

end

end

namespace Check

/-! ## The invariant -/

/-- If the event tells of a look-up, then of one of the given ones, and of what it finds in `F`. -/
def Finds (F : ScopeTree) (ms : List Mark) (e : Event) : Prop :=
  ∀ k p x, e.looked? = some (k, p, x) →
    ∃ μ ∈ ms, μ.kind = k ∧ μ.pos = p ∧ F.lookup? μ.scope μ.name = some x

/-- What a walk has looked up so far (module doc). -/
structure Looked (F : ScopeTree) (ms : List Mark) (s : CheckState) : Prop where
  scopes : s.scopes.scopes = F.scopes
  events : ∀ e ∈ s.events, Finds F ms e

/-- The walk over nodes whose look-ups are among `ms`. -/
def lookups (F : ScopeTree) (ms : List Mark) : Invariant where
  inv := Looked F ms
  later s s' := s'.returns = s.returns
  failed _ _ := Looked F ms
  fault _ := True
  goodVar _ _ := True
  ok _ := Node.Marked ms
  okScope _ := True
  okPos _ := True

section
variable {F : ScopeTree} {ms : List Mark} {s s' : CheckState} {owner : Option String}

theorem lookups_laws : Laws (lookups F ms) where
  later_refl _ := rfl
  later_trans h h' := h'.trans h
  later_returns h := h
  later_good _ _ := trivial
  later_failed _ h := h
  fail h _ := h
  pos _ _ := trivial

theorem Looked.note (h : Looked F ms s) {e : Event} (he : Finds F ms e) :
    Looked F ms { s with events := e :: s.events } :=
  ⟨h.scopes, List.forall_mem_cons.2 ⟨he, h.events⟩⟩

/-- A name denotes in the state what it denotes in the tree. -/
theorem Looked.lookup? (h : Looked F ms s) (scope : ScopeId) (name : String) :
    s.scopes.lookup? scope name = F.lookup? scope name :=
  lookup?_congr h.scopes scope name

theorem finds_of_none {e : Event} (he : e.looked? = none) : Finds F ms e := by
  intro k p x hx
  rw [he] at hx
  cases hx

theorem finds_of_mem {e : Event} {μ : Mark} {x : SymbolId} (hμ : μ ∈ ms)
    (he : e.looked? = some (μ.kind, μ.pos, x)) (hx : F.lookup? μ.scope μ.name = some x) :
    Finds F ms e := by
  intro k p y hy
  obtain ⟨rfl, rfl, rfl⟩ := he.symm.trans hy
  exact ⟨μ, hμ, rfl, rfl, hx⟩

/-! ## Operations -/

theorem look_note {e : Event} (h : Looked F ms s) (he : Finds F ms e) :
    (lookups F ms).Keeps s (Check.note e) fun _ _ => True :=
  note_ends ⟨h.note he, rfl, trivial⟩

theorem lookups_basics : Basics (lookups F ms) where
  toLaws := lookups_laws
  fault _ := trivial
  goodVar _ _ := trivial
  okScope _ := trivial
  fresh h := fresh_ends ⟨⟨h.scopes, h.events⟩, rfl, trivial⟩
  demand h _ := demand_ends ⟨⟨h.scopes, (h.note (finds_of_none rfl)).events⟩, rfl, trivial⟩
  record h := record_ends ⟨⟨h.scopes, h.events⟩, rfl, trivial⟩
  slot h := symbolScheme_ends (fun _ hσ => ⟨h, rfl, hσ⟩) (fun _ hy _ => ⟨⟨h.scopes, h.events⟩, rfl,
    (scheme?_setScheme_of_symbol hy _ _).trans (if_pos rfl)⟩) fun _ _ => trivial

/-- The symbol that a look-up gives is what the name denotes in the tree. -/
theorem look_lookup {scope : ScopeId} {name : String} {pos : Span} (h : Looked F ms s) :
    (lookups F ms).Keeps s (lookup scope name pos) fun x _ => F.lookup? scope name = some x :=
  (lookups_basics.lookup h trivial).imp fun _ _ _ _ hx => (h.lookup? scope name).symm.trans hx.2

theorem look_instantiate {σ : Scheme} (h : Looked F ms s) :
    (lookups F ms).Keeps s (onTable (instantiate σ)) fun _ _ => True :=
  onTable_ends ((Action.ends_anyhow _ _).mono (fun _ _ _ => ⟨⟨h.scopes, h.events⟩, rfl, trivial⟩)
    (fun _ _ _ => ⟨h.scopes, h.events⟩) fun _ => id)

theorem look_solveQueue {opts : CheckOptions} (h : Looked F ms s) :
    (lookups F ms).Keeps s (solveQueue opts) fun _ s' => s'.queue = [] :=
  solveQueue_ends ((Action.ends_anyhow _ _).mono (fun _ _ _ => ⟨⟨h.scopes, h.events⟩, rfl, rfl⟩)
    (fun _ _ _ => ⟨h.scopes, h.events⟩) fun _ => id)

/-- A symbol that is used, noted as a look-up or as a read. -/
theorem look_use {e : Ty → Event} {x : SymbolId} (h : (lookups F ms).At owner s)
    (he : ∀ t, Finds F ms (e t)) : (lookups F ms).Keeps s (useSymbol e x) fun _ _ => True := by
  have L : Basics (lookups F ms) := lookups_basics
  refine L.bind h (L.slot h.inv) fun σ s1 h1 _ _ => ?_
  refine L.bind h1 (look_instantiate h1.inv) fun t s2 h2 _ _ => ?_
  exact L.bind h2 (look_note h2.inv (he t)) fun _ s3 h3 _ _ => L.pure h3 trivial

theorem look_callee {name : String} {namePos pos : Span} {scope home : ScopeId}
    (h : (lookups F ms).At owner s) (hm : ⟨none, name, pos, scope⟩ ∈ ms)
    (hf : s.scopes.find? scope name = some home) :
    (lookups F ms).Keeps s (calleeSymbol name namePos pos home) fun _ _ => True := by
  have L : Basics (lookups F ms) := lookups_basics
  refine L.bind h (look_lookup h.inv) fun x s1 h1 _ hx => ?_
  have hx : F.lookup? scope name = some x := by
    rw [← h.inv.lookup?, ← lookup?_of_find? hf, h.inv.lookup?, hx]
  exact look_use h1 fun t => finds_of_mem hm rfl hx

theorem look_typeDecl {opts : CheckOptions} {name : String} {body : Ty} {pos : Span}
    {scope : ScopeId} (h : (lookups F ms).At owner s) (hm : ⟨some .type, name, pos, scope⟩ ∈ ms) :
    (lookups F ms).Keeps s (stmt opts (.typeDecl name body pos scope)) fun _ _ => True := by
  have L : Basics (lookups F ms) := lookups_basics
  unfold stmt
  refine L.bind h (look_lookup h.inv) fun x s1 h1 _ hx => ?_
  refine L.bind h1 (look_note h1.inv (finds_of_mem hm rfl hx)) fun _ s2 h2 _ _ => ?_
  refine L.bind h2 (L.slot h2.inv) fun σ s3 h3 _ _ => ?_
  exact L.bind h3 (L.record h3.inv) fun _ s4 h4 _ _ => L.pure h4 trivial

/-! ## Functions -/

theorem look_formals {bodyScope : ScopeId} (fs : List (Formal Span))
    (h : (lookups F ms).At owner s) (hm : ∀ f ∈ fs, .own bodyScope f.symbol ∈ ms) :
    (lookups F ms).Keeps s (bindFormals bodyScope fs) fun _ _ => True := by
  have L : Basics (lookups F ms) := lookups_basics
  induction fs generalizing s with
  | nil => exact L.pure h trivial
  | cons f fs ih =>
    obtain ⟨hf, hfs⟩ := List.forall_mem_cons.1 hm
    unfold bindFormals
    refine L.bind h (L.fresh h.inv) fun _ s1 h1 _ _ => ?_
    refine L.bind h1 (look_lookup h1.inv) fun x s2 h2 _ hx => ?_
    refine L.bind h2 (look_note h2.inv (finds_of_mem hf rfl hx)) fun _ s3 h3 _ _ => ?_
    refine L.bind h3 (L.slot h3.inv) fun σ s4 h4 _ _ => ?_
    refine L.bind h4 (L.demand h4.inv ⟨_, rfl, trivial⟩) fun _ s5 h5 _ _ => ?_
    exact L.bind h5 (ih h5 hfs) fun _ s6 h6 _ _ => L.pure h6 trivial

theorem look_announce {name : String} {formals : List (Formal Span)} {pos : Span}
    {scope bodyScope : ScopeId} (h : (lookups F ms).At owner s)
    (hm : ⟨some .function, name, pos, scope⟩ ∈ ms)
    (hms : ∀ f ∈ formals, .own bodyScope f.symbol ∈ ms) :
    (lookups F ms).Keeps s (announce name formals pos scope bodyScope) fun _ _ => True := by
  have L : Basics (lookups F ms) := lookups_basics
  unfold announce
  refine L.bind h (look_formals formals h hms) fun params s1 h1 _ _ => ?_
  refine L.bind h1 (look_lookup h1.inv) fun x s2 h2 _ hx => ?_
  refine L.bind h2 (L.fresh h2.inv) fun result s3 h3 _ _ => ?_
  refine L.bind h3 (L.slot h3.inv) fun σ s4 h4 _ _ => ?_
  refine L.bind h4 (look_instantiate h4.inv) fun t s5 h5 _ _ => ?_
  refine L.bind h5 (L.demand h5.inv ⟨_, rfl, trivial⟩) fun _ s6 h6 _ _ => ?_
  refine L.bind h6 (look_note h6.inv (finds_of_mem hm rfl hx)) fun _ s7 h7 _ _ => ?_
  exact L.pure h7 trivial

theorem look_generalize {name : String} {scope : ScopeId} {x : SymbolId} {t : Ty}
    (h : Looked F ms s) :
    (lookups F ms).Keeps s (generalizeFunction name scope x t) fun _ _ => True := by
  refine ends_generalizeFunction.mono ?_ (fun _ _ => False.elim) fun _ => id
  rintro _ s' (rfl | ⟨env, -, rfl⟩)
  · exact ⟨h, rfl, trivial⟩
  · exact ⟨⟨h.scopes, h.events⟩, rfl, trivial⟩

theorem lookups_pointwise : Pointwise (lookups F ms) where
  toBasics := lookups_basics
  later_of_returns h := h
  failed_anew h := h
  opened h := ⟨h.scopes, h.events⟩
  emptied h := ⟨h.scopes, h.events⟩
  resumed _ h := ⟨h.scopes, h.events⟩
  leave h := look_note h (finds_of_none rfl)
  generalize h := look_generalize h
  solve h := look_solveQueue h

/-- A walk looks up what the program marks. -/
theorem lookups_rules (opts : CheckOptions) : Rules opts (lookups F ms) where
  toLaws := lookups_laws
  computedCallee _ := trivial
  castWithoutTarget _ := trivial
  alloc _ := lookups_basics.good
  cast _ := lookups_basics.good
  fieldScope _ := trivial
  callScope _ _ _ := trivial
  fresh h := (lookups_basics.fresh h).imp fun _ _ _ _ _ => lookups_basics.good
  leader h _ := (lookups_basics.readTable h).imp fun _ _ _ _ _ => lookups_basics.good
  demand h ho _ _ := lookups_basics.demand h ho
  record h _ := lookups_basics.record h
  note h _ _ he := look_note h (finds_of_none he)
  read h _ := (look_use h fun _ => finds_of_none rfl).imp fun _ _ _ _ _ => lookups_basics.good
  callee h hok hf := (look_callee h hok hf).imp fun _ _ _ _ _ => lookups_basics.good
  layout h _ := (lookups_basics.initLayout h trivial).imp fun _ _ _ _ _ _ _ => lookups_basics.good
  slot h _ := (lookups_basics.variableType h trivial).imp fun _ _ _ _ _ => lookups_basics.good
  typeDecl h hok := look_typeDecl h hok
  ret h _ := (lookups_basics.returnType h trivial).imp fun _ _ _ _ _ => lookups_basics.good
  function h hok _ hbody := lookups_pointwise.function h trivial
    (fun _ h' => look_announce h' hok.1 hok.2) hbody

/-! ## Top-level statements -/

theorem look_outcome {opts : CheckOptions} {t : Stmt Span} {o : Outcome}
    (ht : Stmt.Every (fun _ => Node.Marked ms) none t) (hs : s.scopes.scopes = F.scopes)
    (hr : s.returns = []) (ho : outcome opts t s = .ok (o, s')) :
    (∀ e ∈ o.events, Finds F ms e) ∧ s'.scopes.scopes = F.scopes ∧ s'.returns = [] := by
  have h0 : (lookups F ms).At none { s with events := [] } := by
    refine ⟨⟨hs, nofun⟩, ?_⟩
    show s.returns.head?.map Prod.fst = none
    rw [hr]
    rfl
  have hend : (lookups F ms).Keeps _ (topLevel opts t) fun _ s' => s'.queue = [] :=
    lookups_pointwise.topLevel (lookups_rules opts) ht h0
  obtain ⟨τ, rfl, h, hl, -⟩ | ⟨e, s1, rfl, rfl, h⟩ := outcome_of_ends hend ho
  · exact ⟨fun e he => h.events e (List.mem_reverse.1 he), h.scopes, hl.trans hr⟩
  · exact ⟨fun e he => h.events e (List.mem_reverse.1 he), h.scopes, rfl⟩

theorem look_outcomes {opts : CheckOptions} : ∀ (ts : List (Stmt Span)) {s s' : CheckState}
    {os : List Outcome}, Stmt.EveryAll (fun _ => Node.Marked ms) none ts →
    s.scopes.scopes = F.scopes → s.returns = [] → outcomes opts ts s = .ok (os, s') →
    ∀ o ∈ os, ∀ e ∈ o.events, Finds F ms e
  | [], s, s', os, _, _, _, hos => by
    cases hos
    exact nofun
  | t :: ts, s, s', os, ⟨ht, hts⟩, hs, hr, hos => by
    obtain ⟨⟨o, s1⟩, ho, hos⟩ := Action.except_bind_eq_ok.1 hos
    obtain ⟨⟨os', s2⟩, hos', h⟩ := Action.except_bind_eq_ok.1 hos
    cases h
    obtain ⟨he, hs1, hr1⟩ := look_outcome ht hs hr ho
    exact List.forall_mem_cons.2 ⟨he, look_outcomes ts hts hs1 hr1 hos'⟩

end

end Check

/-- Each symbol that a check notes for a callee, or for a declaration by itself, is what the name
denotes in the tree of the program, for a look-up that the program marks. -/
theorem Program.lookups_marked {opts : CheckOptions} {P : Program Span} {F : ScopeTree}
    {R : CheckRun} (hR : P.checkRun opts F = .ok R) :
    ∀ o ∈ R.outcomes, ∀ e ∈ o.events, Check.Finds F P.marks e := by
  obtain ⟨⟨os, s⟩, hos, h⟩ := Action.except_bind_eq_ok.1 hR
  cases h
  exact Check.look_outcomes P (Stmt.everyAll_marked none P fun _ => id) rfl rfl hos

end TypeInference
