import TypeInference.Proofs.Check.Quiet
import TypeInference.Proofs.Check.Schemes
import TypeInference.Proofs.Program.Restamp

/-!
# Returns and the functions around them

A `return` is stamped with the name of its function, and the check looks that name up among the open
functions, whose names may be the same. Should it find none, it looks the name up in the scope that
the `return` is stamped with. `Stmt.returns` lists the returns of a statement, each with the
positions of the functions around it in the text.

`Passes` says of a part of the walk which of these returns it meets and which functions are open
then (`Inside`), whether it comes to its end or stops early; that the obligation behind each return
is that the type of its value equals the type noted (`Accounted`); and that the part comes to the
same if the returns have other scopes. It is kept along the syntax (`passes_expr`, `passes_stmt`);
the stack of open functions changes in `passes_enter` and `passes_leave` alone, and is read in
`passes_ret`.

`Program.returns_innermost`: the walk over a bound statement meets the returns of the text, in
order, with exactly the functions open that are around each, and holds each to the result of the
innermost one, a variable of its own, to which it equates the type of the value; and the scopes that
the returns are stamped with make no difference to it.
-/

namespace TypeInference

/-! ## Returns in the text -/

mutual

/-- The returns of an expression, in the order of the walk; `fs` are the functions around it. -/
def Expr.returns (fs : List Span) : Expr Span → List ReturnSite
  | .literal .. | .var .. => []
  | .unary _ e _ | .deref e _ | .addressOf e _ | .field e _ _ _ | .cast e _ _ => e.returns fs
  | .binary _ l r _ | .comparison _ l r _ => l.returns fs ++ r.returns fs
  | .cond c t e _ => c.returns fs ++ (t.returns fs ++ Expr.returnsOpt fs e)
  | .alloc _ e _ => Expr.returnsOpt fs e
  | .block b e _ _ => Stmt.returnsAll fs b ++ Expr.returnsOpt fs e
  | .call _ _ as _ _ | .structInit _ as _ _ => Expr.returnsAll fs as
  | .callValue c as _ _ => c.returns fs ++ Expr.returnsAll fs as

def Expr.returnsOpt (fs : List Span) : Option (Expr Span) → List ReturnSite
  | none => []
  | some e => e.returns fs

def Expr.returnsAll (fs : List Span) : List (Expr Span) → List ReturnSite
  | [] => []
  | e :: es => e.returns fs ++ Expr.returnsAll fs es

/-- The returns of a statement. An assignment is walked from the value to the target. -/
def Stmt.returns (fs : List Span) : Stmt Span → List ReturnSite
  | .typeDecl .. => []
  | .expr e | .varDecl _ _ e _ _ _ | .yield e _ => e.returns fs
  | .funDecl _ _ b _ p _ _ => Expr.returnsOpt (p :: fs) b
  | .ret e _ p _ => ⟨p, fs⟩ :: e.returns fs
  | .assign l r _ => r.returns fs ++ l.returns fs

def Stmt.returnsAll (fs : List Span) : List (Stmt Span) → List ReturnSite
  | [] => []
  | t :: ts => t.returns fs ++ Stmt.returnsAll fs ts

end

/-! ## Other scopes for returns -/

/-- Other scopes on returns, and nothing else. -/
def Restamping.ofReturns (ρ : ScopeId → ScopeId) : Restamping := ⟨id, ρ, id, id, fun _ t => t⟩

@[simp] theorem Restamping.scope_ofReturns (ρ : ScopeId → ScopeId) (s : ScopeId) :
    (ofReturns ρ).scope s = s := rfl

@[simp] theorem Expr.pos_restamp (φ : Restamping) (e : Expr Span) : (e.restamp φ).pos = e.pos := by
  cases e <;> rfl

@[simp] theorem Expr.length_restampAll (φ : Restamping) (es : List (Expr Span)) :
    (Expr.restampAll φ es).length = es.length := by
  induction es with
  | nil => rfl
  | cons e es ih => exact congrArg (· + 1) ih

@[simp] theorem Expr.map_pos_restampOpt (φ : Restamping) (e : Option (Expr Span)) :
    (Expr.restampOpt φ e).map Expr.pos = e.map Expr.pos := by
  cases e with
  | none => rfl
  | some e => exact congrArg some (e.pos_restamp φ)

namespace Check

/-! ## Open functions -/

/-- A function whose body is being walked. -/
structure Frame where
  name : String
  pos : Span
  /-- The variable made for its result. -/
  result : TyVar

/-- The types are variables, each one made after those behind it; none is below `b`, and all are
below `n`. -/
def MadeInTurn (b n : Nat) (ts : List Ty) : Prop :=
  ∃ vs : List TyVar, ts = vs.map .var ∧ vs.Pairwise (· > ·) ∧ ∀ v ∈ vs, b ≤ v ∧ v < n

/-- The functions `fs` are open, innermost first. The results of functions entered so far are
variables from `b` on. -/
structure Inside (b : Nat) (fs : List Frame) (s : CheckState) : Prop where
  wf : s.table.Wf
  base : b ≤ s.table.size
  returns : s.returns = fs.map fun f => (f.name, .var f.result)
  opened : (journal s).opened = fs.map fun f => (f.pos, .var f.result)
  results : MadeInTurn b s.table.size (journal s).results

/-- From `s` to `s'` the returns `rs` were met, each inside the functions that are around it. -/
def Passed (rs : List ReturnSite) (s s' : CheckState) : Prop :=
  ∃ ms, (journal s').met = (journal s).met ++ ms ∧ ms.map ReturnMet.site = rs ∧
    ∀ m ∈ ms, m.Innermost

/-- From `s` to `s'` events were added, and none of them is that of a `return`. -/
def NoReturn (s s' : CheckState) : Prop :=
  ∃ es, s'.events = es ++ s.events ∧ ∀ p t, .ret p t ∉ es

/-- A `return` at `p` that was held to `t` behind the events `before` is one of `ns`, and the walk
goes on with its value. If this comes to a type `u`, the obligation recorded next is that `t` equals
`u`; if it stops, `o` is how it stops. -/
def Equated (opts : CheckOptions) (ns : List Node) {α : Type} (o : Except Stop α × CheckState)
    (p : Span) (t : Ty) (before : List Event) : Prop :=
  ∃ e function scope s, .stmt (.ret e function p scope) ∈ ns ∧ s.events = .ret p t :: before ∧
    match (expr opts e).outcome s with
    | (.ok u, s') => .demand ⟨.equal t u, .ret p e.pos⟩ :: s'.events <:+ o.2.events
    | (.error stop, s') => o = (.error stop, s')

/-- The returns that were met between `s` and the outcome `o` are equated. -/
structure Accounted (opts : CheckOptions) (ns : List Node) (s : CheckState) {α : Type}
    (o : Except Stop α × CheckState) : Prop where
  grows : s.events <:+ o.2.events
  equated : ∀ p t before, .ret p t :: before <:+ o.2.events → s.events <:+ before →
    Equated opts ns o p t before

/-- Started in `s`, both actions have the same outcome. If they succeed they have passed the returns
`rs` and the functions `fs` are open; if not, they have passed the first few of `rs`. The returns
are among the nodes `ns` and equated. -/
structure Passes (opts : CheckOptions) (ns : List Node) (b : Nat) (fs : List Frame)
    (rs : List ReturnSite) (s : CheckState) {α : Type} (x y : CheckM α) : Prop where
  same : y.outcome s = x.outcome s
  accounted : Accounted opts ns s (x.outcome s)
  ends : match x.outcome s with
    | (.ok _, s') => Inside b fs s' ∧ Passed rs s s'
    | (.error _, s') => (∃ n, MadeInTurn b n (journal s').results) ∧
        ∃ rs', rs' <+: rs ∧ Passed rs' s s'

/-- What a `return` at `p` does with its value once it is held to `t`. -/
def valueHeld (opts : CheckOptions) (t : Ty) (p : Span) (e : Expr Span) : CheckM Ty := do
  let u ← expr opts e
  demandEqual t u (.ret p e.pos)
  return .unit

def Frame.spans (fs : List Frame) : List Span := fs.map Frame.pos

def Frame.owner (fs : List Frame) : Option String := fs.head?.map Frame.name

section
variable {opts : CheckOptions} {ns : List Node} {α β : Type} {b : Nat} {fs gs : List Frame}
  {rs rs' : List ReturnSite} {s s' s'' : CheckState} {x y : CheckM α} {Q : α → CheckState → Prop}

theorem Inside.still (h : Inside b fs s) (hs : Still s s') : Inside b fs s' := by
  obtain ⟨vs, hvs, hlt, hb⟩ := h.results
  refine ⟨hs.wf, Nat.le_trans h.base hs.size_le, hs.returns.trans h.returns,
    hs.journal ▸ h.opened, vs, hs.journal ▸ hvs, hlt, fun v hv => ?_⟩
  exact ⟨(hb v hv).1, Nat.lt_of_lt_of_le (hb v hv).2 hs.size_le⟩

theorem MadeInTurn.cons {n m : Nat} {ts : List Ty} (h : MadeInTurn b n ts) (hb : b ≤ n)
    (hn : n < m) : MadeInTurn b m (.var n :: ts) := by
  obtain ⟨vs, rfl, hpair, hvs⟩ := h
  exact ⟨n :: vs, rfl, List.pairwise_cons.2 ⟨fun v hv => (hvs v hv).2, hpair⟩,
    List.forall_mem_cons.2 ⟨⟨hb, hn⟩, fun v hv => ⟨(hvs v hv).1, Nat.lt_trans (hvs v hv).2 hn⟩⟩⟩

theorem Silent.noReturn (h : Silent s s') : NoReturn s s' := by
  obtain ⟨es, hes, hq⟩ := h
  refine ⟨es, hes, fun p t hm => ?_⟩
  exact List.cons_ne_nil _ _ (congrArg Journal.met (hq _ hm ⟨[], [], []⟩))

theorem NoReturn.met (h : NoReturn s s') : (journal s').met = (journal s).met := by
  obtain ⟨es, hes, hn⟩ := h
  refine journal_of_append (f := Journal.met) hes fun e he j => ?_
  cases e with
  | ret p t => exact absurd he (hn p t)
  | _ => rfl

theorem passed_nil (h : NoReturn s s') : Passed [] s s' :=
  ⟨[], by rw [h.met, List.append_nil], rfl, nofun⟩

theorem Passed.trans (h : Passed rs s s') (h' : Passed rs' s' s'') : Passed (rs ++ rs') s s'' := by
  obtain ⟨ms, hm, hr, hi⟩ := h
  obtain ⟨ms', hm', hr', hi'⟩ := h'
  refine ⟨ms ++ ms', by rw [hm', hm, List.append_assoc], by rw [List.map_append, hr, hr'], ?_⟩
  exact fun m hm => (List.mem_append.1 hm).elim (hi m) (hi' m)

/-! ## Obligations behind returns -/

/-- What was equated stays so while events are added, and while a stop is handed on. -/
theorem Equated.imp {o : Except Stop α × CheckState} {o' : Except Stop β × CheckState} {p : Span}
    {t : Ty} {before : List Event} (h : Equated opts ns o p t before)
    (hg : o.2.events <:+ o'.2.events)
    (hstop : ∀ stop s', o = (.error stop, s') → o' = (.error stop, s')) :
    Equated opts ns o' p t before := by
  obtain ⟨e, function, scope, s₁, hn, hev, hw⟩ := h
  refine ⟨e, function, scope, s₁, hn, hev, ?_⟩
  rcases hx : (expr opts e).outcome s₁ with ⟨stop | u, s₂⟩ <;> rw [hx] at hw
  · exact hstop stop s₂ hw
  · exact hw.trans hg

theorem NoReturn.accounted {r : Except Stop α} (h : NoReturn s s') :
    Accounted opts ns s (r, s') := by
  obtain ⟨es, hes, hn⟩ := h
  refine ⟨⟨es, hes.symm⟩, ?_⟩
  rintro p t _ ⟨l, hl⟩ ⟨m, rfl⟩
  have he : es ++ s.events = (l ++ .ret p t :: m) ++ s.events := by
    rw [← hes, ← hl, List.append_assoc, List.cons_append]
  have hm : .ret p t ∈ es :=
    List.append_cancel_right he ▸ List.mem_append_right l List.mem_cons_self
  exact absurd hm (hn p t)

theorem Accounted.trans {a : α} {o : Except Stop β × CheckState}
    (h : Accounted opts ns s (Except.ok (ε := Stop) a, s')) (h' : Accounted opts ns s' o) :
    Accounted opts ns s o := by
  refine ⟨h.grows.trans h'.grows, fun p t before hb hs => ?_⟩
  have hfirst : .ret p t :: before <:+ s'.events → Equated opts ns o p t before := fun hb' =>
    (h.equated p t before hb' hs).imp h'.grows nofun
  rcases List.suffix_or_suffix_of_suffix hb h'.grows with hb' | hb'
  · exact hfirst hb'
  · rcases List.suffix_cons_iff.1 hb' with he | hb'
    · exact hfirst (he ▸ List.suffix_rfl)
    · exact h'.equated p t before hb hb'

theorem Accounted.error {stop : Stop}
    (h : Accounted opts ns s (Except.error (α := α) stop, s')) :
    Accounted opts ns s (Except.error (α := β) stop, s') :=
  ⟨h.grows, fun p t before hb hs => (h.equated p t before hb hs).imp List.suffix_rfl (by
    rintro _ _ ⟨⟩
    rfl)⟩

theorem Quiet.accounted (h : Quiet s x Q) : Accounted opts ns s (x.outcome s) := by
  unfold Quiet at h
  rcases hx : x.outcome s with ⟨e | a, s'⟩ <;> rw [hx] at h
  · exact h.noReturn.accounted
  · exact h.1.silent.noReturn.accounted

/-- A `return` that was noted last, and whose value is walked and equated. -/
theorem Accounted.ret {e : Expr Span} {function : Option String} {p : Span} {scope : ScopeId}
    {t : Ty} (hn : .stmt (.ret e function p scope) ∈ ns) (hev : s'.events = .ret p t :: s.events)
    (h : Accounted opts ns s' ((valueHeld opts t p e).outcome s')) :
    Accounted opts ns s ((valueHeld opts t p e).outcome s') := by
  have hgrows := h.grows
  rw [hev] at hgrows
  refine ⟨(List.suffix_cons ..).trans hgrows, ?_⟩
  rintro q u _ hb ⟨m, rfl⟩
  cases m with
  | nil =>
    have hq := List.suffix_of_suffix_length_le hgrows hb (Nat.le_refl _)
    cases hq.eq_of_length rfl
    refine ⟨e, function, scope, s', hn, hev, ?_⟩
    rw [valueHeld, Action.outcome_bind]
    rcases (expr opts e).outcome s' with ⟨stop | u, s₂⟩
    · rfl
    · exact List.suffix_rfl
  | cons d m =>
    have hq := List.suffix_of_suffix_length_le hgrows ((List.suffix_cons ..).trans hb) (by simp)
    exact h.equated q u _ hb (hev ▸ hq)

/-! ## Actions in turn -/

theorem Quiet.passes (h : Quiet s x fun _ _ => True) (hs : Inside b fs s) :
    Passes opts ns b fs [] s x x := by
  refine ⟨rfl, h.accounted, ?_⟩
  unfold Quiet at h
  rcases hx : x.outcome s with ⟨e | a, s'⟩ <;> rw [hx] at h
  · exact ⟨⟨_, h.journal ▸ hs.results⟩, [], List.nil_prefix, passed_nil h.noReturn⟩
  · exact ⟨hs.still h.1, passed_nil h.1.silent.noReturn⟩

/-- An action that stops at once has passed no return. -/
theorem passes_stop {e : Stop} (hs : Inside b fs s) (hx : x.outcome s = (.error e, s)) :
    Passes opts ns b fs rs s x x := by
  have hn : NoReturn s s := (silent_of_events rfl).noReturn
  refine ⟨rfl, hx ▸ hn.accounted, ?_⟩
  rw [hx]
  exact ⟨⟨_, hs.results⟩, [], List.nil_prefix, passed_nil hn⟩

/-- What passes the returns `rs'` comes first. -/
theorem Passes.since {x' y' : CheckM α} (h : Passes opts ns b fs rs s' x' y') (hp : Passed rs' s s')
    (ha : Accounted opts ns s (x'.outcome s')) (hx : x.outcome s = x'.outcome s')
    (hy : y.outcome s = y'.outcome s') : Passes opts ns b fs (rs' ++ rs) s x y := by
  refine ⟨by rw [hy, hx, h.same], hx ▸ ha, ?_⟩
  have hends := h.ends
  rw [hx]
  rcases hx' : x'.outcome s' with ⟨e | a, s1⟩ <;> rw [hx'] at hends
  · obtain ⟨hres, rs1, hrs, hp'⟩ := hends
    exact ⟨hres, rs' ++ rs1, (List.prefix_append_right_inj rs').2 hrs, hp.trans hp'⟩
  · exact ⟨hends.1, hp.trans hends.2⟩

theorem Passes.after {x' y' : CheckM α} (h : Passes opts ns b fs rs s' x' y')
    (hn : NoReturn s s') (hx : x.outcome s = x'.outcome s') (hy : y.outcome s = y'.outcome s') :
    Passes opts ns b fs rs s x y :=
  have hs : Accounted opts ns s (Except.ok (ε := Stop) (), s') := hn.accounted
  h.since (passed_nil hn) (hs.trans h.accounted) hx hy

theorem Passes.bind {f g : α → CheckM β} (h : Passes opts ns b fs rs s x y)
    (hf : ∀ a s', Inside b fs s' → Passes opts ns b gs rs' s' (f a) (g a)) :
    Passes opts ns b gs (rs ++ rs') s (x >>= f) (y >>= g) := by
  obtain ⟨hsame, ha, hends⟩ := h
  rcases hx : x.outcome s with ⟨e | a, s1⟩ <;> rw [hx] at hsame ha hends
  · have hout : (x >>= f).outcome s = (.error e, s1) := by rw [Action.outcome_bind, hx]
    refine ⟨by rw [hout, Action.outcome_bind, hsame], hout ▸ ha.error, ?_⟩
    rw [hout]
    obtain ⟨hres, rs1, hrs, hp⟩ := hends
    exact ⟨hres, rs1, hrs.trans (List.prefix_append ..), hp⟩
  · have hnext := hf a s1 hends.1
    exact hnext.since hends.2 (ha.trans hnext.accounted) (by rw [Action.outcome_bind, hx])
      (by rw [Action.outcome_bind, hsame])

/-- A quiet action comes first. -/
theorem Quiet.bind_passes {f g : α → CheckM β} (h : Quiet s x Q) (hs : Inside b fs s)
    (hf : ∀ a s', Still s s' → Inside b fs s' → Q a s' → Passes opts ns b gs rs s' (f a) (g a)) :
    Passes opts ns b gs rs s (x >>= f) (x >>= g) := by
  unfold Quiet at h
  rcases hx : x.outcome s with ⟨e | a, s1⟩ <;> rw [hx] at h
  · have hout : (x >>= f).outcome s = (.error e, s1) := by rw [Action.outcome_bind, hx]
    refine ⟨by rw [hout, Action.outcome_bind, hx], hout ▸ h.noReturn.accounted, ?_⟩
    rw [hout]
    exact ⟨⟨_, h.journal ▸ hs.results⟩, [], List.nil_prefix, passed_nil h.noReturn⟩
  · have hout : ∀ k : α → CheckM β, (x >>= k).outcome s = (k a).outcome s1 := fun k => by
      rw [Action.outcome_bind, hx]
    exact (hf a s1 h.1 (hs.still h.1) h.2).after h.1.silent.noReturn (hout f) (hout g)

/-- A quiet action comes last. -/
theorem Passes.bind_quiet {f : α → CheckM β} (h : Passes opts ns b fs rs s x y)
    (hf : ∀ a s', Inside b fs s' → Quiet s' (f a) fun _ _ => True) :
    Passes opts ns b fs rs s (x >>= f) (y >>= f) :=
  List.append_nil rs ▸ h.bind fun a s' hs => (hf a s' hs).passes hs

theorem passes_get_bind {f g : CheckState → CheckM β} (h : Passes opts ns b fs rs s (f s) (g s)) :
    Passes opts ns b fs rs s (get >>= f) (get >>= g) :=
  h.after (silent_of_events rfl).noReturn rfl rfl

/-! ## Functions and returns -/

/-- Inside a function, its name leads to its result, whatever the scope. -/
theorem outcome_returnType {f : Frame} (hs : Inside b (f :: fs) s) (pos : Span) (scope : ScopeId) :
    (returnType (some f.name) pos scope).outcome s = (.ok (.var f.result), s) := by
  have hfind : s.returns.find? (fun r => r.1 == f.name) = some (f.name, .var f.result) := by
    rw [hs.returns, List.map_cons, List.find?_cons_of_pos]
    exact beq_self_eq_true f.name
  unfold returnType
  rw [Action.outcome_get_bind]
  simp only [hfind]
  rfl

/-- A `return` is held to the result of the innermost function, and then its value is equated with
it. -/
theorem passes_ret {f : Frame} {e e' : Expr Span} {pos : Span} {scope scope' : ScopeId}
    (hs : Inside b (f :: fs) s) (hn : .stmt (.ret e (some f.name) pos scope) ∈ ns)
    (hpos : e'.pos = e.pos) (he : ∀ s', Inside b (f :: fs) s' →
      Passes opts ns b (f :: fs) rs s' (expr opts e) (expr opts e')) :
    Passes opts ns b (f :: fs) (⟨pos, Frame.spans (f :: fs)⟩ :: rs) s
      (stmt opts (.ret e (some f.name) pos scope))
      (stmt opts (.ret e' (some f.name) pos scope')) := by
  let s' : CheckState := { s with events := .ret pos (.var f.result) :: s.events }
  have hj : journal s' = _ := journal_of_events rfl
  have hin : Inside b (f :: fs) s' :=
    ⟨hs.wf, hs.base, hs.returns, hj ▸ hs.opened, hj ▸ hs.results⟩
  have hout : ∀ (e : Expr Span) (scope : ScopeId),
      (stmt opts (.ret e (some f.name) pos scope)).outcome s =
        (valueHeld opts (.var f.result) pos e).outcome s' := fun e scope => by
    unfold stmt
    rw [Action.outcome_bind, outcome_returnType hs]
    rfl
  have hvalue : Passes opts ns b (f :: fs) rs s' (valueHeld opts (.var f.result) pos e)
      (valueHeld opts (.var f.result) pos e') := by
    unfold valueHeld
    rw [hpos]
    exact (he s' hin).bind_quiet fun u s2 h2 => quiet_lastDemand h2.wf
  have hp : Passed [⟨pos, Frame.spans (f :: fs)⟩] s s' := by
    refine ⟨[⟨pos, .var f.result, (journal s).opened⟩], by rw [hj]; rfl, ?_, ?_⟩
    · rw [hs.opened, List.map_singleton, ReturnMet.site, List.map_map]
      rfl
    · rintro m hm
      obtain rfl := List.mem_singleton.1 hm
      exact ⟨f.pos, f.result, _, hs.opened, rfl⟩
  exact hvalue.since hp (.ret hn rfl hvalue.accounted) (hout e scope) (hout e' scope')

/-- Entering a function with a result newer than those before opens it. -/
theorem passes_enter {name : String} {pos : Span} {z : SymbolId} {v : TyVar} {k k' : CheckM α}
    (hs : Inside b fs s) (hb : b ≤ v) (hv : MadeInTurn b v (journal s).results)
    (hlt : v < s.table.size)
    (hk : ∀ s', Inside b (⟨name, pos, v⟩ :: fs) s' → Passes opts ns b gs rs s' k k') :
    Passes opts ns b gs rs s
      (do
        note (.enter pos z (.var v))
        modify fun s => { s with returns := (name, .var v) :: s.returns }
        k)
      (do
        note (.enter pos z (.var v))
        modify fun s => { s with returns := (name, .var v) :: s.returns }
        k') := by
  have hj : journal { s with
      events := .enter pos z (.var v) :: s.events, returns := (name, .var v) :: s.returns } = _ :=
    journal_of_events rfl
  have hin : Inside b (⟨name, pos, v⟩ :: fs) { s with
      events := .enter pos z (.var v) :: s.events, returns := (name, .var v) :: s.returns } :=
    ⟨hs.wf, hs.base, congrArg (_ :: ·) hs.returns,
      (congrArg Journal.opened hj).trans (congrArg (_ :: ·) hs.opened), hj ▸ hv.cons hb hlt⟩
  exact (hk _ hin).after ⟨[_], rfl, by simp⟩ rfl rfl

/-- Leaving a function, the ones around it stay open. -/
theorem passes_leave {f : Frame} {pos : Span} {k : CheckM α}
    (hs : Inside b (f :: fs) s) (hk : ∀ s', Inside b fs s' → Quiet s' k fun _ _ => True) :
    Passes opts ns b fs [] s
      (do modify fun s => { s with returns := s.returns.tail }; note (.leave pos); k)
      (do modify fun s => { s with returns := s.returns.tail }; note (.leave pos); k) := by
  have hj : journal { s with
      returns := s.returns.tail, events := .leave pos :: s.events } = _ := journal_of_events rfl
  have hleft : Inside b fs { s with
      returns := s.returns.tail, events := .leave pos :: s.events } :=
    ⟨hs.wf, hs.base, congrArg List.tail hs.returns,
      (congrArg Journal.opened hj).trans (congrArg List.tail hs.opened), hj ▸ hs.results⟩
  exact ((hk _ hleft).passes hleft).after ⟨[_], rfl, by simp⟩ rfl rfl

/-- The body of a function is walked with the function open, and its result is a variable that was
made for it. -/
theorem passes_functionType {name : String} {formals : List (Formal Span)}
    {body body' : Expr Span} {pos : Span} {scope bodyScope : ScopeId} (hs : Inside b fs s)
    (hpos : body'.pos = body.pos) (hbody : ∀ v s', Inside b (⟨name, pos, v⟩ :: fs) s' →
      Passes opts ns b (⟨name, pos, v⟩ :: fs) rs s' (expr opts body) (expr opts body')) :
    Passes opts ns b fs rs s (functionType opts name formals body pos scope bodyScope)
      (functionType opts name formals body' pos scope bodyScope) := by
  unfold functionType announce
  simp only [bind_assoc, pure_bind, hpos]
  refine (quiet_bindFormals formals hs.wf).bind_passes hs fun params s1 _ h1 _ => ?_
  refine (quiet_lookup h1.wf).bind_passes h1 fun x s2 _ h2 _ => ?_
  refine (quiet_fresh h2.wf).bind_passes h2 ?_
  rintro _ s3 l3 h3 ⟨rfl, hsize⟩
  refine (quiet_symbolScheme h3.wf).bind_passes h3 fun σ s4 l4 h4 _ => ?_
  refine (quiet_instantiate h4.wf).bind_passes h4 fun t s5 l5 h5 _ => ?_
  refine (quiet_demand h5.wf).bind_passes h5 fun _ s6 l6 h6 _ => ?_
  have l : Still s3 s6 := l4.trans (l5.trans l6)
  have hnew : MadeInTurn b s2.table.size (journal s6).results :=
    (l3.trans l).journal ▸ h2.results
  refine passes_enter h6 h2.base hnew
    (Nat.lt_of_lt_of_le (hsize ▸ Nat.lt_succ_self _) l.size_le) fun s7 h7 => ?_
  refine List.append_nil rs ▸ (hbody _ s7 h7).bind fun t s8 h8 => ?_
  refine passes_leave h8 fun s9 h9 => ?_
  -- what is demanded of the body is solved outside
  refine (quiet_demand h9.wf).bind fun _ _ hs _ => ?_
  exact (quiet_solveQueue hs.wf).bind fun _ _ hs _ => quiet_done hs.wf

/-- A function declaration, with a queue of its own. -/
theorem passes_funDecl {name : String} {formals : List (Formal Span)}
    {body body' : Expr Span} {hint : Option Ty} {pos : Span} {scope bodyScope : ScopeId}
    (hs : Inside b fs s) (hpos : body'.pos = body.pos)
    (hbody : ∀ v s', Inside b (⟨name, pos, v⟩ :: fs) s' →
      Passes opts ns b (⟨name, pos, v⟩ :: fs) rs s' (expr opts body) (expr opts body')) :
    Passes opts ns b fs rs s
      (stmt opts (.funDecl name formals (some body) hint pos scope bodyScope))
      (stmt opts (.funDecl name formals (some body') hint pos scope bodyScope)) := by
  rw [stmt_funDecl, stmt_funDecl]
  simp only [functionDecl, bind_assoc, pure_bind]
  refine passes_get_bind ((quiet_queue [] hs.wf).bind_passes hs fun _ s1 _ h1 _ => ?_)
  refine (passes_functionType h1 hpos hbody).bind_quiet fun r s2 h2 => ?_
  refine (quiet_generalizeFunction h2.wf).bind fun _ s3 hs3 _ => ?_
  refine (quiet_readTable hs3.wf).bind fun t s4 hs4 _ => ?_
  refine (quiet_record hs4.wf).bind fun _ s5 hs5 _ => ?_
  exact (quiet_queue _ hs5.wf).bind fun _ s6 hs6 _ => quiet_done hs6.wf

end

/-! ## The walk -/

/-- The node is stamped in the function `owner`, and it is one of `ns`. -/
def StampedIn (ns : List Node) (owner : Option String) (n : Node) : Prop :=
  n.Stamped owner ∧ n ∈ ns

section
variable (opts : CheckOptions) {ns : List Node} {b : Nat} (ρ : ScopeId → ScopeId)

mutual

theorem passes_expr : ∀ {fs s} (e : Expr Span), Expr.Every (StampedIn ns) (Frame.owner fs) e →
    Inside b fs s → Passes opts ns b fs (e.returns (Frame.spans fs)) s (expr opts e)
      (expr opts (e.restamp (.ofReturns ρ)))
  | fs, s, .literal v p, _, h => by
    unfold Expr.returns Expr.restamp expr
    exact ((quiet_record h.wf).bind fun _ _ hs _ => quiet_done hs.wf).passes h
  | fs, s, .var x p sc none, _, h => by
    unfold Expr.returns Expr.restamp expr
    exact quiet_fail.passes h
  | fs, s, .var x p sc (some y), _, h => by
    unfold Expr.returns Expr.restamp expr
    exact (quiet_readSymbol h.wf).passes h
  | fs, s, .unary op e p, ⟨_, he⟩, h => by
    simp only [Expr.returns, Expr.restamp, expr, Expr.pos_restamp]
    exact (passes_expr e he h).bind_quiet fun t s1 h1 => quiet_lastDemand h1.wf
  | fs, s, .binary op l r p, ⟨_, hl, hr⟩, h => by
    simp only [Expr.returns, Expr.restamp, expr, Expr.pos_restamp]
    refine (passes_expr l hl h).bind fun t s1 h1 => ?_
    exact (passes_expr r hr h1).bind_quiet fun u s2 h2 => quiet_lastDemand h2.wf
  | fs, s, .comparison op l r p, ⟨_, hl, hr⟩, h => by
    simp only [Expr.returns, Expr.restamp, expr]
    refine (passes_expr l hl h).bind fun t s1 h1 => ?_
    exact (passes_expr r hr h1).bind_quiet fun u s2 h2 =>
      (quiet_demands _ h2.wf).bind fun _ _ hs _ => quiet_lastDemand hs.wf
  | fs, s, .cond c t e p, ⟨_, hc, ht, he⟩, h => by
    simp only [Expr.returns, Expr.restamp, expr, Expr.pos_restamp, Expr.map_pos_restampOpt]
    refine (passes_expr c hc h).bind fun u s1 h1 => ?_
    refine (quiet_demand h1.wf).bind_passes h1 fun _ s2 _ h2 _ => ?_
    refine (passes_expr t ht h2).bind fun u s3 h3 => ?_
    exact (passes_optional e he h3).bind_quiet fun w s4 h4 => quiet_lastDemand h4.wf
  | fs, s, .deref e p, ⟨_, he⟩, h => by
    simp only [Expr.returns, Expr.restamp, expr]
    exact (passes_expr e he h).bind_quiet fun t s1 h1 =>
      (quiet_fresh h1.wf).bind fun _ _ hs _ =>
        (quiet_demand hs.wf).bind fun _ _ hs _ => quiet_readTable hs.wf
  | fs, s, .addressOf e p, ⟨_, he⟩, h => by
    simp only [Expr.returns, Expr.restamp, expr]
    exact (passes_expr e he h).bind_quiet fun t s1 h1 => quiet_done h1.wf
  | fs, s, .alloc t none p, _, h => by
    simp only [Expr.returns, Expr.returnsOpt, Expr.restamp, Expr.restampOpt, expr]
    exact (quiet_done h.wf).passes h
  | fs, s, .alloc t (some e) p, ⟨_, he⟩, h => by
    simp only [Expr.returns, Expr.returnsOpt, Expr.restamp, Expr.restampOpt, expr, Expr.pos_restamp]
    exact (passes_expr e he h).bind_quiet fun u s1 h1 => quiet_lastDemand h1.wf
  | fs, s, .block ts e p sc, ⟨_, hts, he⟩, h => by
    simp only [Expr.returns, Expr.restamp, expr]
    exact (passes_stmts ts hts h).bind fun _ s1 h1 => passes_optional e he h1
  | fs, s, .call x q as p sc, ⟨_, has⟩, h => by
    simp only [Expr.returns, Expr.restamp, expr, Expr.length_restampAll, Restamping.scope_ofReturns,
      ← calleeSymbol_bind]
    refine passes_get_bind ((quiet_require h.wf).bind_passes h fun _ s1 _ h1 _ => ?_)
    split
    · exact passes_stop h1 rfl
    · refine (quiet_calleeSymbol h1.wf).bind_passes h1 fun t s2 _ h2 _ => ?_
      refine (quiet_demand h2.wf).bind_passes h2 fun _ s3 _ h3 _ => ?_
      refine (quiet_calleeShape h3.wf).bind_passes h3 fun r s4 _ h4 hr => ?_
      split
      -- there are as many parameters as arguments, so every argument is walked
      · exact (passes_arguments _ as has h4 (hr _ _ rfl)).bind_quiet fun _ s5 h5 =>
          quiet_done h5.wf
      · exact (passes_walk as has h4).bind_quiet fun _ s5 h5 => (quiet_fresh h5.wf).imp
          fun _ _ _ => trivial
  | fs, s, .callValue c as p sc, _, h => by
    simp only [Expr.returns, Expr.restamp, expr]
    exact passes_stop h rfl
  | fs, s, .structInit x vs p sc, ⟨_, hvs⟩, h => by
    simp only [Expr.returns, Expr.restamp, expr, Expr.length_restampAll]
    refine (quiet_initLayout h.wf).bind_passes h fun r s1 _ h1 hr => ?_
    exact (passes_fieldValues r.2 vs hvs h1 hr).bind_quiet fun _ s2 h2 => quiet_done h2.wf
  | fs, s, .field e x p sc, ⟨_, he⟩, h => by
    simp only [Expr.returns, Expr.restamp, expr]
    refine (passes_expr e he h).bind_quiet fun t s1 h1 => ?_
    refine (quiet_readTable h1.wf).bind fun _ s2 hs2 _ => ?_
    refine (quiet_fresh hs2.wf).bind fun _ s3 hs3 _ => ?_
    refine (quiet_demand hs3.wf).bind fun _ s4 hs4 _ => ?_
    refine (quiet_record hs4.wf).bind fun _ s5 hs5 _ => ?_
    exact (quiet_note hs5.wf fun _ => rfl).bind fun _ s6 hs6 _ => quiet_done hs6.wf
  | fs, s, .cast e t p, ⟨_, he⟩, h => by
    simp only [Expr.returns, Expr.restamp, expr]
    refine (passes_expr e he h).bind_quiet fun u s1 h1 => ?_
    split
    · exact quiet_abort
    · exact (quiet_readTable h1.wf).bind fun _ _ hs _ => quiet_lastDemand hs.wf

theorem passes_optional : ∀ {fs s} (e : Option (Expr Span)),
    Expr.EveryOpt (StampedIn ns) (Frame.owner fs) e → Inside b fs s →
    Passes opts ns b fs (Expr.returnsOpt (Frame.spans fs) e) s (optional opts e)
      (optional opts (Expr.restampOpt (.ofReturns ρ) e))
  | fs, s, none, _, h => by
    unfold Expr.returnsOpt Expr.restampOpt optional
    exact (quiet_done h.wf).passes h
  | fs, s, some e, he, h => by
    unfold Expr.returnsOpt Expr.restampOpt optional
    exact passes_expr e he h

theorem passes_walk : ∀ {fs s} (es : List (Expr Span)),
    Expr.EveryAll (StampedIn ns) (Frame.owner fs) es → Inside b fs s →
    Passes opts ns b fs (Expr.returnsAll (Frame.spans fs) es) s (walk opts es)
      (walk opts (Expr.restampAll (.ofReturns ρ) es))
  | fs, s, [], _, h => by
    unfold Expr.returnsAll Expr.restampAll walk
    exact (quiet_done h.wf).passes h
  | fs, s, e :: es, ⟨he, hes⟩, h => by
    unfold Expr.returnsAll Expr.restampAll walk
    exact (passes_expr e he h).bind fun _ s1 h1 => passes_walk es hes h1

theorem passes_arguments : ∀ {fs s} {call : Span} {i : Nat} (ps : List Ty) (es : List (Expr Span)),
    Expr.EveryAll (StampedIn ns) (Frame.owner fs) es → Inside b fs s → ps.length = es.length →
    Passes opts ns b fs (Expr.returnsAll (Frame.spans fs) es) s (arguments opts call i ps es)
      (arguments opts call i ps (Expr.restampAll (.ofReturns ρ) es))
  | fs, s, call, i, [], [], _, h, _ => by
    unfold Expr.returnsAll Expr.restampAll arguments
    exact (quiet_done h.wf).passes h
  | fs, s, call, i, p :: ps, e :: es, ⟨he, hes⟩, h, hlen => by
    simp only [Expr.returnsAll, Expr.restampAll, arguments, Expr.pos_restamp]
    refine (passes_expr e he h).bind fun t s1 h1 => ?_
    refine (quiet_demand h1.wf).bind_passes h1 fun _ s2 _ h2 _ => ?_
    exact passes_arguments ps es hes h2 (Nat.succ.inj hlen)

theorem passes_fieldValues : ∀ {fs s} {init : Span} (ls : List (String × Ty))
    (es : List (Expr Span)), Expr.EveryAll (StampedIn ns) (Frame.owner fs) es → Inside b fs s →
    ls.length = es.length →
    Passes opts ns b fs (Expr.returnsAll (Frame.spans fs) es) s (fieldValues opts init ls es)
      (fieldValues opts init ls (Expr.restampAll (.ofReturns ρ) es))
  | fs, s, init, [], [], _, h, _ => by
    unfold Expr.returnsAll Expr.restampAll fieldValues
    exact (quiet_done h.wf).passes h
  | fs, s, init, (n, t) :: ls, e :: es, ⟨he, hes⟩, h, hlen => by
    simp only [Expr.returnsAll, Expr.restampAll, fieldValues, Expr.pos_restamp]
    refine (passes_expr e he h).bind fun u s1 h1 => ?_
    refine (quiet_demand h1.wf).bind_passes h1 fun _ s2 _ h2 _ => ?_
    exact passes_fieldValues ls es hes h2 (Nat.succ.inj hlen)

theorem passes_stmt : ∀ {fs s} (t : Stmt Span), Stmt.Every (StampedIn ns) (Frame.owner fs) t →
    Inside b fs s → Passes opts ns b fs (t.returns (Frame.spans fs)) s (stmt opts t)
      (stmt opts (t.restamp (.ofReturns ρ)))
  | fs, s, .expr e, ⟨_, he⟩, h | fs, s, .yield e p, ⟨_, he⟩, h => by
    simp only [Stmt.returns, Stmt.restamp, stmt]
    exact (passes_expr e he h).bind_quiet fun _ s1 h1 => quiet_done h1.wf
  | fs, s, .typeDecl x t p sc, _, h => (quiet_typeDecl h.wf).passes h
  | fs, s, .varDecl x t e p sc y, ⟨_, he⟩, h => by
    simp only [Stmt.returns, Stmt.restamp, stmt_varDecl, Expr.pos_restamp]
    refine (quiet_variableType h.wf).bind_passes h fun t s1 _ h1 _ => ?_
    exact (passes_expr e he h1).bind_quiet fun u s2 h2 => quiet_lastDemand h2.wf
  | fs, s, .funDecl x ps none t p sc sc', _, h => by
    simp only [Stmt.returns, Stmt.restamp, Expr.returnsOpt, Expr.restampOpt, stmt]
    exact (quiet_done h.wf).passes h
  | fs, s, .funDecl x ps (some e) t p sc sc', ⟨_, he⟩, h =>
    passes_funDecl h (e.pos_restamp _) fun v s' h' => passes_expr e he h'
  | fs, s, .ret e g p sc, ⟨⟨hg, hn⟩, he⟩, h => by
    cases fs with
    -- outside all functions the check stops
    | nil =>
      obtain rfl : g = none := hg
      simp only [Stmt.restamp, stmt, Expr.pos_restamp]
      exact passes_stop h rfl
    | cons f fs =>
      obtain rfl : g = some f.name := hg
      exact passes_ret h hn (e.pos_restamp _) fun s' h' => passes_expr e he h'
  | fs, s, .assign l r p, ⟨_, hl, hr⟩, h => by
    simp only [Stmt.returns, Stmt.restamp, stmt, Expr.pos_restamp]
    refine (passes_expr r hr h).bind fun u s1 h1 => ?_
    exact (passes_expr l hl h1).bind_quiet fun t s2 h2 => quiet_lastDemand h2.wf

theorem passes_stmts : ∀ {fs s} (ts : List (Stmt Span)),
    Stmt.EveryAll (StampedIn ns) (Frame.owner fs) ts → Inside b fs s →
    Passes opts ns b fs (Stmt.returnsAll (Frame.spans fs) ts) s (stmts opts ts)
      (stmts opts (Stmt.restampAll (.ofReturns ρ) ts))
  | fs, s, [], _, h => by
    unfold Stmt.returnsAll Stmt.restampAll stmts
    exact (quiet_done h.wf).passes h
  | fs, s, t :: ts, ⟨ht, hts⟩, h => by
    unfold Stmt.returnsAll Stmt.restampAll stmts
    exact (passes_stmt t ht h).bind fun _ s1 h1 => passes_stmts ts hts h1

end

/-- A statement of the root list. -/
theorem passes_topLevel {s : CheckState} {t : Stmt Span} (ht : t.TopStamped) (h : Inside b [] s) :
    Passes opts t.nodes b [] (t.returns []) s (topLevel opts t)
      (topLevel opts (t.restamp (.ofReturns ρ))) := by
  have hmem : Stmt.Every (fun _ n => n ∈ t.nodes) none t := Stmt.every_of_nodes none t fun _ => id
  have hstmt : Passes opts t.nodes b [] (t.returns []) s (stmt opts t)
      (stmt opts (t.restamp (.ofReturns ρ))) := by
    cases t with
    | funDecl x ps e u p sc sc' =>
      cases e with
      | none => exact passes_stmt opts ρ _ (Stmt.every_and none _ ht hmem) h
      | some e =>
        have he : Expr.Every (StampedIn _) (some x) e := Expr.every_and (some x) e ht.2 hmem.2
        exact passes_funDecl h (e.pos_restamp _) fun v s' h' => passes_expr opts ρ e he h'
    | _ => exact passes_stmt opts ρ _ (Stmt.every_and none _ ht hmem) h
  refine hstmt.bind_quiet fun u s1 h1 => quiet_get_bind ?_
  dsimp only
  split
  · exact (quiet_solveQueue h1.wf).bind fun _ _ hs _ => quiet_readTable hs.wf
  · exact quiet_readTable h1.wf

end

end Check

/-- Whenever the check of a program comes to a statement of the root list, the walk over the
statement meets the returns in it in order, all of them if it succeeds and the first few if not.
At each, exactly the functions around the `return` are open, and it is held to the result of the
innermost one: the walk goes on with the value of a `return` of the statement, and when that has a
type, it records that the result equals it. The results are different variables, none of them older
than the statement. With other scopes on its returns, which only a look-up past the open functions
reads, the statement comes to the same. -/
theorem Program.returns_innermost (P : Program Span) {opts : CheckOptions} {t : Stmt Span}
    {done rest : List (Stmt Span)} {os : List Outcome} {s s' : CheckState} {r : Except Stop Ty}
    (hP : P.bind.1 = done ++ t :: rest)
    (hs : Check.outcomes opts done (Check.start P.bind.2) = .ok (os, s))
    (hr : (Check.topLevel opts t).outcome { s with events := [] } = (r, s')) :
    let J := Event.journal s'.events.reverse
    (J.met.map ReturnMet.site <+: t.returns [] ∧
      (∀ τ, r = .ok τ → J.met.map ReturnMet.site = t.returns [])) ∧
    (∀ m ∈ J.met, m.Innermost) ∧
    (∀ p τ before, .ret p τ :: before <:+ s'.events →
      Check.Equated opts t.nodes (r, s') p τ before) ∧
    (∃ n, Check.MadeInTurn s.table.size n J.results) ∧
    ∀ ρ : ScopeId → ScopeId, (Check.topLevel opts (t.restamp (.ofReturns ρ))).outcome
      { s with events := [] } = (r, s') := by
  have hI := (P.consistent_outcomes hP hs).2
  have hwf : s.table.Wf := (Check.outcomes_settled done VarTable.wf_empty hs).1.wf
  have ht : t.TopStamped := P.bind_built.2 t (hP ▸ List.mem_append_right _ List.mem_cons_self)
  have hin : Check.Inside s.table.size [] { s with events := [] } :=
    ⟨hwf, Nat.le_refl _, hI.returns, rfl, [], rfl, .nil, nofun⟩
  have hpass := fun ρ => Check.passes_topLevel opts ρ ht hin
  have hends := (hpass id).ends
  have hacc := (hpass id).accounted
  rw [hr] at hends hacc
  have heq : ∀ p τ before, .ret p τ :: before <:+ s'.events →
      Check.Equated opts t.nodes (r, s') p τ before := fun p τ before hb =>
    hacc.equated p τ before hb List.nil_suffix
  have hsame : ∀ ρ : ScopeId → ScopeId, (Check.topLevel opts (t.restamp (.ofReturns ρ))).outcome
      { s with events := [] } = (r, s') := fun ρ => (hpass ρ).same.trans hr
  intro J
  cases r with
  | ok τ =>
    obtain ⟨hin', ms, hms, hsites, hmet⟩ := hends
    obtain rfl : J.met = ms := hms
    exact ⟨⟨hsites ▸ List.prefix_rfl, fun _ _ => hsites⟩, hmet, heq, ⟨_, hin'.results⟩, hsame⟩
  | error e =>
    obtain ⟨hres, rs, hrs, ms, hms, hsites, hmet⟩ := hends
    obtain rfl : J.met = ms := hms
    exact ⟨⟨hsites ▸ hrs, nofun⟩, hmet, heq, hres, hsame⟩

/-- The function
`fun f(a) { fun f(b) { return b; b }; f({ return a; 2 }); let c = { return a; 1 }; return a; a }`.
-/
def namesakeSample : Program Span := Program.number 0 [
  .funDecl "f" [⟨"a", none⟩] (some (.block [
    .funDecl "f" [⟨"b", none⟩] (some (.block
      [.ret (.var "b" none 0 none) none none 0] (some (.var "b" none 0 none)) none 0))
      none none 0 0,
    .expr (.call "f" none [.block [.ret (.var "a" none 0 none) none none 0]
      (some (.literal (.int 2) none)) none 0] none 0),
    .varDecl "c" none (.block [.ret (.var "a" none 0 none) none none 0]
      (some (.literal (.int 1) none)) none 0) none 0 none,
    .ret (.var "a" none 0 none) none none 0] (some (.var "a" none 0 none)) none 0)) none none 0 0]

/-- A function inside another of the same name; then a `return` in an argument, one in an
initializer and one at the end. -/
theorem returns_innermost_namesakeSample :
    ∃ t r s', namesakeSample.bind.1 = [] ++ t :: [] ∧
      Check.outcomes ⟨10000⟩ [] (Check.start namesakeSample.bind.2) =
        .ok ([], Check.start namesakeSample.bind.2) ∧
      (Check.topLevel ⟨10000⟩ t).outcome { Check.start namesakeSample.bind.2 with events := [] } =
        (r, s') ∧
      ((Event.journal s'.events.reverse).met.map fun m => (m.within.length, m.ty)) =
        [(2, .var 6), (1, .var 2), (1, .var 2), (1, .var 2)] ∧
      (Event.journal s'.events.reverse).met.map ReturnMet.site = t.returns [] ∧
      ∀ m ∈ (Event.journal s'.events.reverse).met, m.Innermost := by
  have hrun : (namesakeSample.bind.1.map fun t =>
      let x := (Check.topLevel ⟨10000⟩ t).outcome
        { Check.start namesakeSample.bind.2 with events := [] }
      (x.1.toOption.isSome, (Event.journal x.2.events.reverse).met.map fun m =>
        (m.within.length, m.ty))) =
      [(true, [(2, .var 6), (1, .var 2), (1, .var 2), (1, .var 2)])] := by decide +kernel
  obtain ⟨t, ht, hrun⟩ := List.map_eq_singleton_iff.1 hrun
  have hstart : Check.outcomes ⟨10000⟩ [] (Check.start namesakeSample.bind.2) =
    .ok ([], Check.start namesakeSample.bind.2) := rfl
  rcases hx : (Check.topLevel ⟨10000⟩ t).outcome
    { Check.start namesakeSample.bind.2 with events := [] } with ⟨e | τ, s'⟩ <;> rw [hx] at hrun
  · cases hrun
  · obtain ⟨⟨-, hall⟩, hinner, -⟩ := namesakeSample.returns_innermost ht hstart hx
    exact ⟨t, _, s', ht, hstart, hx, congrArg Prod.snd hrun, hall τ rfl, hinner⟩

end TypeInference
