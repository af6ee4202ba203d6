import TypeInference.Proofs.Program.Placement
import TypeInference.Proofs.Scoping.Sites

/-!
# Binding keeps what later look-ups need

`Traces` is what a step of binding is known to do for the look-ups in it. Nothing that comes after a
block touches the scopes that were opened in it; so in every later tree that shows the regions
around, these scopes show the regions as the block left them, ended (`Traces.shown`). The walk goes
by the forms of expressions and statements, as the one for reads does.

`Program.sites_shown` says of whole programs that the look-ups of the bound program are those of the
program and that its tree shows the ended regions around each.
-/

namespace TypeInference

open ScopeTree Lexical

namespace Lexical

/-- The tree shows the ended regions around the site. If a declaration is looked up, the innermost
region lists it. -/
structure Site.Shown (F : ScopeTree) (c : Site) : Prop where
  regions : ShowsAll F c.ended
  ordered : c.inner.ended.Ordered
  listed : ∀ d, c.target = .own d → d ∈ c.inner.region.listed

/-- The look-ups are those of the sites. -/
def Covers (cs : List Site) (ms : List Mark) : Prop := ms = cs.map Site.mark

theorem Covers.append {cs cs' : List Site} {ms ms' : List Mark} (h : Covers cs ms)
    (h' : Covers cs' ms') : Covers (cs ++ cs') (ms ++ ms') := by
  unfold Covers at *
  rw [List.map_append, h, h']

theorem Covers.cons {cs : List Site} {ms : List Mark} (h : Covers cs ms) {c : Site} {μ : Mark}
    (hμ : μ = c.mark) : Covers (c :: cs) (μ :: ms) := by
  unfold Covers at *
  rw [List.map_cons, h, hμ]

/-- The look-ups of what is declared in a region. -/
theorem Surrounding.covers_owns (σ : Surrounding) (κ : List Surrounding) {m : Made}
    {zs : List Symbol} (h : σ.region.listed = m.number zs) :
    Covers (σ.owns κ) (zs.map (Mark.own σ.region.scope)) :=
  calc zs.map (Mark.own σ.region.scope)
    _ = ((m.number zs).map Prod.fst).map (Mark.own σ.region.scope) := by
      rw [Made.number, List.zipIdx_map_fst]
    _ = (σ.owns κ).map Site.mark := by
      rw [owns, h, List.map_map, List.map_map]
      rfl

/-! ## Regions of later trees -/

section
variable {kept : ScopeId → Prop} {T F : ScopeTree} {q : Region} {ρ E : List Region}

/-- A scope that stays as it is goes on showing its region inside regions of the same scopes. -/
theorem Shows.seen (h : Shows T q ρ) (hE : E.map Region.scope = ρ.map Region.scope)
    (ha : Agrees kept T F) (hk : kept q.scope) : Shows F q E := by
  have hs : F.scope? q.scope = T.scope? q.scope := ha.scope _ h.lt hk
  refine ⟨Nat.lt_of_lt_of_le h.lt ha.scopes_le, fun he => h.root ?_, fun e he => ?_, ?_, ?_,
    fun name => ?_, fun d hd => ha.symbol? (h.symbols d hd)⟩
  · rw [he] at hE
    exact List.map_eq_nil_iff.1 hE.symm
  · obtain ⟨r, hr, hre⟩ := List.mem_map.1 (hE ▸ List.mem_map_of_mem he)
    exact hre ▸ h.outer r hr
  · rw [← List.head?_map, hE, List.head?_map, ← h.parent]
    simp only [ScopeTree.parent?, hs]
  · rw [← List.length_map Region.scope, hE, List.length_map, ← h.level]
    simp only [ScopeTree.level, hs]
  · rw [← h.bindings]
    simp only [ScopeTree.bindings, hs]

theorem agrees_declareAll (s : ScopeId) : ∀ (zs : List Symbol) (T : ScopeTree),
    Agrees (fun a => a ≠ s) T (zs.foldl (fun T z => (T.declare s z).2) T)
  | [], T => .refl T
  | z :: zs, T => (agrees_declare T z (· rfl)).trans (agrees_declareAll s zs _)

end

theorem ended_scopes (σs : List Surrounding) :
    (σs.map Surrounding.ended).map Region.scope = (σs.map Surrounding.region).map Region.scope := by
  rw [List.map_map, List.map_map]
  rfl

/-- The region of a list of statements ends the same, seen from any of them. -/
theorem ended_past (r : Region) (m : Made) (t : Stmt Span) (ts : List (Stmt Span)) :
    (⟨r.past m t, Stmt.variables (t.after m) ts⟩ : Surrounding).ended =
      (⟨r, Stmt.variables m (t :: ts)⟩ : Surrounding).ended := by
  simp only [Surrounding.ended, Region.past, Stmt.variables, List.append_assoc]

theorem ended_ended (σ : Surrounding) : (⟨σ.ended, []⟩ : Surrounding).ended = σ.ended := by
  simp only [Surrounding.ended, List.append_nil]

/-! ## Steps of binding -/

/-- The tree stands for the region `r` inside the surroundings `κ`. -/
structure Reached (T : ScopeTree) (m : Made) (r : Region) (κ : List Surrounding) : Prop
    extends Stands T m (r :: κ.map Surrounding.region) where
  ordered : r.Ordered

/-- Started in `T` in a region inside the surroundings `κ`, the step leaves a tree that stands for
`m` and the region `r` inside them; the scopes other than that of `r` stay. The sites are shown in
every tree that keeps the scopes opened by the step and shows the ended regions around, `E` the
innermost one. The result is as `P` says. -/
structure Traces (m : Made) (r : Region) (κ : List Surrounding) (E : Region) (T : ScopeTree)
    {α : Type} (x : StateM ScopeTree α) (sites : List Site) (P : α → Prop) : Prop where
  reached : Reached (x.run T).2 m r κ
  agrees : Agrees (fun a => a ≠ r.scope) T (x.run T).2
  shown : ∀ F, Agrees (fun a => T.scopes.size ≤ a) (x.run T).2 F →
    ShowsAll F (E :: κ.map Surrounding.ended) → E.Ordered → ∀ c ∈ sites, c.Shown F
  post : P (x.run T).1

section
variable {T : ScopeTree} {m m' : Made} {r r' E : Region} {σ : Surrounding} {κ : List Surrounding}
  {α β : Type} {x : StateM ScopeTree α} {cs cs' : List Site} {P : α → Prop} {Q : β → Prop}

theorem Traces.bind {f : α → StateM ScopeTree β} (hx : Traces m r κ E T x cs P)
    (hr : r.scope < T.scopes.size) (hs : r'.scope = r.scope)
    (hf : ∀ a T1, P a → Reached T1 m r κ → Traces m' r' κ E T1 (f a) cs' Q) :
    Traces m' r' κ E T (x >>= f) (cs ++ cs') Q := by
  have h := hf _ _ hx.post hx.reached
  refine ⟨h.reached, (hs ▸ hx.agrees).trans h.agrees, fun F hF hE ho c hc => ?_, h.post⟩
  rcases List.mem_append.1 hc with hc | hc
  · refine hx.shown F ((h.agrees.mono fun a ha => ?_).trans hF) hE ho c hc
    exact hs ▸ Nat.ne_of_gt (Nat.lt_of_lt_of_le hr ha)
  · exact h.shown F (hF.mono fun a ha => Nat.le_trans hx.agrees.scopes_le ha) hE ho c hc

theorem Traces.map {g : α → β} (hx : Traces m r κ E T x cs P) (hg : ∀ a, P a → Q (g a)) :
    Traces m r κ E T (do return g (← x)) cs Q :=
  ⟨hx.reached, hx.agrees, hx.shown, hg _ hx.post⟩

theorem Traces.pure {a : α} (h : Reached T m r κ) (ha : P a) :
    Traces m r κ E T (Pure.pure a) [] P :=
  ⟨h, .refl T, fun _ _ _ _ _ => nofun, ha⟩

/-- A step in a new scope, which ends as the region `q`. -/
theorem Traces.inside {f : ScopeId → StateM ScopeTree α} (q : Region) (hq : q.scope = m.scopes)
    (h : Reached T m σ.region κ) (hf : ∀ T1, Reached T1 m.scope ⟨m.scopes, [], []⟩ (σ :: κ) →
      Traces m' q (σ :: κ) q T1 (f m.scopes) cs P) :
    Traces m' σ.region κ σ.ended T
      (do let s ← modifyGet fun T => T.newScope σ.region.scope; f s) cs P := by
  obtain ⟨hs, ha, hc, hp⟩ := hf _ ⟨h.newScope, .nil⟩
  rw [hq, ← h.scopes] at ha
  rw [← h.scopes] at hs hc hp
  refine ⟨⟨⟨hs.scopes, hs.symbols, hs.regions.2⟩, h.ordered⟩,
    (agrees_inside ha).mono fun _ _ => trivial, fun F hF hE _ => ?_, hp⟩
  refine hc F (hF.mono fun a ha' => Nat.le_trans (by simp) ha') ⟨?_, hE⟩ hs.ordered
  exact hs.regions.1.seen (ended_scopes (σ :: κ)) hF (Nat.le_of_eq (h.scopes.trans hq.symm))

/-- What is declared in a region that has no candidates yet. -/
theorem traces_declareAll {zs : List Symbol} {f : ScopeTree → ScopeTree}
    (h : Reached T m ⟨σ.region.scope, [], []⟩ κ)
    (hσ : σ.region = ⟨σ.region.scope, m.number zs, []⟩)
    (hf : f T = zs.foldl (fun T z => (T.declare σ.region.scope z).2) T) :
    Traces (m.declare zs.length) σ.region κ σ.ended T (modify f) (σ.owns κ) fun _ => True := by
  refine ⟨⟨?_, ?_⟩, ?_, fun F _ hE ho c hc => ?_, trivial⟩
  · rw [hσ]
    show Stands (f T) _ _
    rw [hf]
    exact (h.declareAll zs rfl).1
  · rw [hσ, Region.Ordered, Region.candidates, List.append_nil, ← List.pairwise_map, Made.number,
      List.zipIdx_map_snd]
    exact List.pairwise_lt_range'
  · show Agrees _ T (f T)
    rw [hf]
    exact agrees_declareAll ..
  · obtain ⟨d, hd, rfl⟩ := List.mem_map.1 hc
    exact ⟨hE, ho, fun d' hd' => Target.own.inj hd' ▸ hd⟩

/-- One more variable of a region. -/
theorem traces_declare (h : Reached T m r κ) (z : Symbol) :
    Traces (m.declare 1) (r.precede (z, m.symbols)) κ E T
      (modifyGet fun T => T.declare r.scope z) [] fun _ => True := by
  refine ⟨⟨?_, ?_⟩, agrees_declare T z (· rfl), fun _ _ _ _ _ => nofun, trivial⟩
  · refine h.declare z (r.precede (z, _)) rfl (Region.pick?_precede r z _) fun d hd => ?_
    simp only [Region.candidates, Region.precede, List.mem_append, List.mem_singleton] at hd ⊢
    exact hd.elim (.inl ∘ .inl) (·.imp_left .inr)
  · rw [Region.Ordered, Region.candidates, Region.precede, ← List.append_assoc]
    refine List.pairwise_append.2 ⟨h.ordered, List.pairwise_singleton .., fun d hd e he => ?_⟩
    rw [List.mem_singleton.1 he, ← h.symbols]
    exact lt_of_symbol? (h.regions.1.symbols d hd)

end

/-! ## Look-ups of later trees -/

section
variable {F : ScopeTree} {c : Site} (h : c.Shown F)
include h

theorem Site.Shown.lookup? (name : String) :
    F.lookup? c.scope name = denoted? c.ended name :=
  Stands.lookup? (m := ⟨F.scopes.size, F.symbols.size⟩) ⟨rfl, rfl, h.regions⟩ name

/-- A declaration is a symbol of the tree. By its name the last symbol is found that was made of
this name in its region. -/
theorem Site.Shown.own {d : Candidate} (hd : c.target = .own d) :
    F.symbol? d.2 = some d.1 ∧ F.lookup? c.scope d.1.name = c.inner.ended.pick? d.1.name ∧
      (c.inner.ended.pick? d.1.name = some d.2 ↔
        ∀ e ∈ c.inner.ended.candidates, e.1.name = d.1.name → e.2 ≤ d.2) := by
  have hm : d ∈ c.inner.ended.candidates := List.mem_append_left _ (h.listed d hd)
  refine ⟨h.regions.1.symbols d hm, ?_, h.ordered.pick?_own hm⟩
  obtain ⟨y, hy⟩ := Option.isSome_iff_exists.1 (lastNamed?_isSome hm)
  rw [← Region.pick?_eq] at hy
  rw [h.lookup?, Site.ended, List.map_cons, denoted?, List.findSome?_cons, hy]

end

end Lexical

/-! ## The binder -/

mutual

theorem Expr.bind_traces : ∀ {owner : Option String} {T : ScopeTree} {m : Made} {σ : Surrounding}
    {κ : List Surrounding} (e : Expr Span), Reached T m σ.region κ →
    Traces (e.after m) σ.region κ σ.ended T (Expr.bind owner σ.region.scope e) (e.sites σ κ m)
      fun e' => Covers (e.sites σ κ m) e'.marks
  | owner, T, m, σ, κ, .literal v p, h => by
    unfold Expr.bind
    exact .pure h rfl
  | owner, T, m, σ, κ, .var x p s y, h => by
    unfold Expr.bind
    exact ⟨h, .refl T, fun _ _ _ _ _ => nofun, rfl⟩
  | owner, T, m, σ, κ, .unary op e p, h | owner, T, m, σ, κ, .deref e p, h
  | owner, T, m, σ, κ, .addressOf e p, h | owner, T, m, σ, κ, .field e x p s, h
  | owner, T, m, σ, κ, .cast e t p, h => by
    unfold Expr.bind
    exact (Expr.bind_traces e h).map fun _ => id
  | owner, T, m, σ, κ, .binary op a b p, h | owner, T, m, σ, κ, .comparison op a b p, h => by
    unfold Expr.bind
    refine (Expr.bind_traces a h).bind h.regions.1.lt rfl fun a' T1 ha h1 => ?_
    exact (Expr.bind_traces b h1).map fun _ hb => ha.append hb
  | owner, T, m, σ, κ, .cond c t e p, h => by
    unfold Expr.bind
    unfold Expr.sites
    rw [List.append_assoc]
    refine (Expr.bind_traces c h).bind h.regions.1.lt rfl fun c' T1 hc h1 => ?_
    refine (Expr.bind_traces t h1).bind h1.regions.1.lt rfl fun t' T2 ht h2 => ?_
    refine (Expr.bindOpt_traces e h2).map fun e' he => ?_
    rw [← List.append_assoc]
    exact (hc.append ht).append he
  | owner, T, m, σ, κ, .alloc t e p, h => by
    unfold Expr.bind
    exact (Expr.bindOpt_traces e h).map fun _ => id
  | owner, T, m, σ, κ, .block b e p s, h => by
    unfold Expr.bind
    unfold Expr.sites
    rw [List.append_assoc]
    refine .inside (aroundStmts m.scope m.scopes b).ended rfl h fun T1 h1 => ?_
    refine (traces_declareAll (σ := aroundStmts m.scope m.scopes b) h1 rfl
      (hoistAll_eq m.scopes b T1)).bind h1.regions.1.lt rfl fun _ T2 _ h2 => ?_
    refine (Stmt.bindAll_traces b h2).bind h2.regions.1.lt rfl fun b' T3 ⟨hown, hb⟩ h3 => ?_
    have h4 : Traces _ _ _ _ T3 (Expr.bindOpt owner _ e) _ _ :=
      Expr.bindOpt_traces (σ := ⟨(aroundStmts m.scope m.scopes b).ended, []⟩) e h3
    rw [ended_ended] at h4
    refine h4.map fun e' he => ?_
    rw [← List.append_assoc]
    refine Covers.append (Covers.append ?_ hb) he
    rw [hown]
    exact Surrounding.covers_owns _ _ rfl
  | owner, T, m, σ, κ, .call x q as p s, h => by
    unfold Expr.bind
    have has : Traces _ _ _ _ T (Expr.bindAll owner _ as) _ _ := Expr.bindAll_traces as h
    refine ⟨has.reached, has.agrees, fun F hF hE ho => ?_, has.post.cons rfl⟩
    exact List.forall_mem_cons.2 ⟨⟨hE, ho, nofun⟩, has.shown F hF hE ho⟩
  | owner, T, m, σ, κ, .callValue c as p s, h => by
    unfold Expr.bind
    refine (Expr.bind_traces c h).bind h.regions.1.lt rfl fun c' T1 hc h1 => ?_
    exact (Expr.bindAll_traces as h1).map fun _ has => hc.append has
  | owner, T, m, σ, κ, .structInit x vs p s, h => by
    unfold Expr.bind
    exact (Expr.bindAll_traces vs h).map fun _ => id

theorem Expr.bindOpt_traces : ∀ {owner : Option String} {T : ScopeTree} {m : Made}
    {σ : Surrounding} {κ : List Surrounding} (e : Option (Expr Span)),
    Reached T m σ.region κ →
    Traces (Expr.afterOpt m e) σ.region κ σ.ended T (Expr.bindOpt owner σ.region.scope e)
      (Expr.sitesOpt σ κ m e) fun e' => Covers (Expr.sitesOpt σ κ m e) (Expr.marksOpt e')
  | owner, T, m, σ, κ, none, h => by
    unfold Expr.bindOpt
    exact .pure h rfl
  | owner, T, m, σ, κ, some e, h => by
    unfold Expr.bindOpt
    exact (Expr.bind_traces e h).map fun _ => id

theorem Expr.bindAll_traces : ∀ {owner : Option String} {T : ScopeTree} {m : Made}
    {σ : Surrounding} {κ : List Surrounding} (es : List (Expr Span)),
    Reached T m σ.region κ →
    Traces (Expr.afterAll m es) σ.region κ σ.ended T (Expr.bindAll owner σ.region.scope es)
      (Expr.sitesAll σ κ m es) fun es' => Covers (Expr.sitesAll σ κ m es) (Expr.marksAll es')
  | owner, T, m, σ, κ, [], h => by
    unfold Expr.bindAll
    exact .pure h rfl
  | owner, T, m, σ, κ, e :: es, h => by
    unfold Expr.bindAll
    refine (Expr.bind_traces e h).bind h.regions.1.lt rfl fun e' T1 he h1 => ?_
    exact (Expr.bindAll_traces es h1).map fun _ hes => he.append hes

theorem Stmt.bind_traces : ∀ {owner : Option String} {T : ScopeTree} {m : Made} {σ : Surrounding}
    {κ : List Surrounding} (t : Stmt Span), Reached T m σ.region κ →
    Traces (t.after m) (σ.region.past m t) κ σ.ended T (Stmt.bind owner σ.region.scope t)
      (t.sites σ κ m) fun t' => t'.ownMark? = t.listed?.map (Mark.own σ.region.scope) ∧
        Covers (t.sites σ κ m) t'.marks
  | owner, T, m, σ, κ, .expr e, h | owner, T, m, σ, κ, .ret e f p s, h
  | owner, T, m, σ, κ, .yield e p, h => by
    rw [Region.past_of_none rfl]
    unfold Stmt.bind
    exact (Expr.bind_traces e h).map fun _ he => ⟨rfl, he⟩
  | owner, T, m, σ, κ, .typeDecl x t p s, h => by
    rw [Region.past_of_none rfl]
    unfold Stmt.bind
    exact .pure h ⟨rfl, rfl⟩
  | owner, T, m, σ, κ, .varDecl x t e p s y, h => by
    unfold Stmt.bind
    show Traces _ _ _ _ _ _ (e.sites σ κ m) _
    rw [← List.append_nil (e.sites σ κ m)]
    refine (Expr.bind_traces e h).bind h.regions.1.lt rfl fun e' T1 he h1 => ?_
    exact (traces_declare h1 ⟨x, .variable, p, t.map Scheme.mono⟩).map fun _ _ => ⟨rfl, he⟩
  | owner, T, m, σ, κ, .funDecl x fs b t p s s', h => by
    rw [Region.past_of_none rfl]
    unfold Stmt.bind
    refine .inside (ofFormals m m.scopes fs) rfl h fun T1 h1 => ?_
    refine (traces_declareAll (σ := ⟨ofFormals m m.scopes fs, []⟩) h1 rfl
      (declareFormals_eq m.scopes fs T1)).bind h1.regions.1.lt rfl fun _ T2 _ h2 => ?_
    rw [List.length_map] at h2
    refine (Expr.bindOpt_traces (σ := ⟨ofFormals m m.scopes fs, []⟩) b h2).map fun b' hb => ?_
    refine ⟨rfl, Covers.append ?_ hb⟩
    have hown := Surrounding.covers_owns ⟨ofFormals m m.scopes fs, []⟩ (σ :: κ) rfl
    rw [List.map_map] at hown
    exact hown
  | owner, T, m, σ, κ, .assign a b p, h => by
    rw [Region.past_of_none rfl]
    unfold Stmt.bind
    refine (Expr.bind_traces a h).bind h.regions.1.lt rfl fun a' T1 ha h1 => ?_
    exact (Expr.bind_traces b h1).map fun _ hb => ⟨rfl, ha.append hb⟩

theorem Stmt.bindAll_traces : ∀ {owner : Option String} {T : ScopeTree} {m : Made} {r : Region}
    {κ : List Surrounding} (ts : List (Stmt Span)),
    Reached T m r κ →
    Traces (Stmt.afterAll m ts) (⟨r, Stmt.variables m ts⟩ : Surrounding).ended κ
      (⟨r, Stmt.variables m ts⟩ : Surrounding).ended T (Stmt.bindAll owner r.scope ts)
      (Stmt.sitesAll r κ m ts) fun ts' =>
        ts'.filterMap Stmt.ownMark? = (Stmt.listed ts).map (Mark.own r.scope) ∧
          Covers (Stmt.sitesAll r κ m ts) (Stmt.marksAll ts')
  | owner, T, m, r, κ, [], h => by
    unfold Stmt.bindAll
    refine .pure ?_ ⟨rfl, rfl⟩
    rw [Surrounding.ended, Stmt.variables, List.append_nil]
    exact h
  | owner, T, m, r, κ, t :: ts, h => by
    unfold Stmt.bindAll
    refine (Stmt.bind_traces (σ := ⟨r, Stmt.variables m (t :: ts)⟩) t h).bind h.regions.1.lt rfl
      fun t' T1 ⟨hown, ht⟩ h1 => ?_
    have h2 : Traces _ _ _ _ T1 (Stmt.bindAll owner _ ts) _ _ := Stmt.bindAll_traces ts h1
    rw [ended_past] at h2
    refine h2.map fun ts' ⟨howns, hts⟩ => ⟨?_, ht.append hts⟩
    rw [List.filterMap_cons, hown, Stmt.listed, List.filterMap_cons]
    cases t.listed? with
    | none => exact howns
    | some z => exact congrArg _ howns

end

/-- The look-ups of a bound program are those of the program, in order, and the tree of the program
shows the ended regions around each. -/
theorem Program.sites_shown (P : Program Span) :
    P.bind.1.marks = P.sites.map Site.mark ∧ ∀ c ∈ P.sites, c.Shown P.bind.2 := by
  have h0 := traces_declareAll (σ := aroundStmts ⟨1, 0⟩ rootScope P) (κ := [])
    ⟨stands_initial, .nil⟩ rfl (hoistAll_eq rootScope P .initial)
  have h : Traces _ (aroundStmts ⟨1, 0⟩ rootScope P).ended [] (aroundStmts ⟨1, 0⟩ rootScope P).ended
    _ (Stmt.bindAll none rootScope P) _ _ := Stmt.bindAll_traces P h0.reached
  have hE : ShowsAll P.bind.2 [(aroundStmts ⟨1, 0⟩ rootScope P).ended] := h.reached.regions
  obtain ⟨hown, hmarks⟩ := h.post
  have hown := hown.trans ((aroundStmts ⟨1, 0⟩ rootScope P).covers_owns [] (m := ⟨1, 0⟩) rfl)
  refine ⟨Covers.append hown hmarks, fun c hc => ?_⟩
  rcases List.mem_append.1 hc with hc | hc
  · exact h0.shown _ (h.agrees.mono fun a ha => Nat.ne_of_gt ha) hE h.reached.ordered c hc
  · exact h.shown _ (.refl _) hE h.reached.ordered c hc

end TypeInference
