import TypeInference.Proofs.Check.Rules
import TypeInference.Proofs.Check.State
import TypeInference.Proofs.Polymorphism
import TypeInference.Proofs.Solve

/-!
# Functions and returns in the events of a check

A `Journal` reads a list of events for what it says of functions and returns: which functions are
open, what variables were made for the results of the functions entered, and for every `return` that
was met the type that it was held to and the functions that were open then.

Most of what a walk does is `Quiet`: it adds only events that no journal notes (`Silent`), also when
it stops early, and leaves the open functions as they are.
-/

namespace TypeInference

/-! ## Journals -/

/-- A `return` in a piece of syntax. -/
structure ReturnSite where
  pos : Span
  /-- The positions of the functions around it, innermost first. -/
  within : List Span
  deriving DecidableEq, Repr

/-- A `return` that was met. -/
structure ReturnMet where
  pos : Span
  /-- The type that the returned value was held to. -/
  ty : Ty
  /-- The functions that were open and their result types, innermost first. -/
  within : List (Span × Ty)
  deriving DecidableEq, Repr

def ReturnMet.site (m : ReturnMet) : ReturnSite := ⟨m.pos, m.within.map Prod.fst⟩

/-- The `return` was held to the result of the innermost open function, a variable. -/
def ReturnMet.Innermost (m : ReturnMet) : Prop :=
  ∃ f v fs, m.within = (f, .var v) :: fs ∧ m.ty = .var v

/-- What was done about functions and returns. -/
structure Journal where
  /-- The functions that are open and their result types, innermost first. -/
  opened : List (Span × Ty)
  /-- The result types of all functions that were entered, last first. -/
  results : List Ty
  /-- The returns that were met, in order. -/
  met : List ReturnMet
  deriving DecidableEq, Repr

def Journal.after (j : Journal) : Event → Journal
  | .enter p _ r => { j with opened := (p, r) :: j.opened, results := r :: j.results }
  | .leave _ => { j with opened := j.opened.tail }
  | .ret p t => { j with met := j.met ++ [⟨p, t, j.opened⟩] }
  | _ => j

/-- The journal of events in order. -/
def Event.journal (events : List Event) : Journal := events.foldl Journal.after ⟨[], [], []⟩

namespace Check

def journal (s : CheckState) : Journal := Event.journal s.events.reverse

theorem journal_of_events {s s' : CheckState} {e : Event} (h : s'.events = e :: s.events) :
    journal s' = (journal s).after e := by
  simp only [journal, Event.journal, h, List.reverse_cons, List.foldl_append, List.foldl_cons,
    List.foldl_nil]

/-- What no added event changes stays as it was in the journal. -/
theorem journal_of_append {s s' : CheckState} {es : List Event} {γ : Type} {f : Journal → γ}
    (hes : s'.events = es ++ s.events) (h : ∀ e ∈ es, ∀ j : Journal, f (j.after e) = f j) :
    f (journal s') = f (journal s) := by
  simp only [journal, Event.journal, List.foldl_reverse, hes, List.foldr_append]
  clear hes
  induction es with
  | nil => rfl
  | cons e es ih =>
    rw [List.foldr_cons, h e List.mem_cons_self]
    exact ih fun e he => h e (List.mem_cons_of_mem _ he)

/-! ## Quiet actions -/

/-- From `s` to `s'` only events were added that no journal notes. -/
def Silent (s s' : CheckState) : Prop :=
  ∃ es, s'.events = es ++ s.events ∧ ∀ e ∈ es, ∀ j : Journal, j.after e = j

/-- Between two states nothing was done about functions and returns; the later one has a sound
table. -/
structure Still (s s' : CheckState) : Prop where
  silent : Silent s s'
  returns : s'.returns = s.returns
  size_le : s.table.size ≤ s'.table.size
  wf : s'.table.Wf

/-- Started in `s`, the action does nothing about functions and returns, and if it succeeds it ends
with `Q`. -/
def Quiet {α : Type} (s : CheckState) (x : CheckM α) (Q : α → CheckState → Prop) : Prop :=
  match x.outcome s with
  | (.ok a, s') => Still s s' ∧ Q a s'
  | (.error _, s') => Silent s s'

section
variable {α β : Type} {s s' s'' : CheckState} {x : CheckM α} {Q : α → CheckState → Prop}
  {Q' : β → CheckState → Prop}

theorem silent_of_events (h : s'.events = s.events) : Silent s s' := ⟨[], h, nofun⟩

theorem Silent.trans (h : Silent s s') (h' : Silent s' s'') : Silent s s'' := by
  obtain ⟨es, hes, hq⟩ := h
  obtain ⟨es', hes', hq'⟩ := h'
  refine ⟨es' ++ es, by rw [hes', hes, List.append_assoc], fun e he => ?_⟩
  exact (List.mem_append.1 he).elim (hq' e) (hq e)

theorem Silent.journal (h : Silent s s') : journal s' = journal s := by
  obtain ⟨es, hes, hq⟩ := h
  exact journal_of_append (f := id) hes hq

theorem Still.journal (h : Still s s') : journal s' = journal s := h.silent.journal

theorem Still.refl (h : s.table.Wf) : Still s s := ⟨silent_of_events rfl, rfl, Nat.le_refl _, h⟩

theorem Still.trans (h : Still s s') (h' : Still s' s'') : Still s s'' :=
  ⟨h.silent.trans h'.silent, h'.returns.trans h.returns, Nat.le_trans h.size_le h'.size_le, h'.wf⟩

theorem Quiet.imp {R : α → CheckState → Prop} (h : Quiet s x Q) (hQ : ∀ a s', Q a s' → R a s') :
    Quiet s x R := by
  unfold Quiet at *
  rcases hx : x.outcome s with ⟨e | a, s1⟩ <;> rw [hx] at h
  · exact h
  · exact ⟨h.1, hQ a s1 h.2⟩

theorem Quiet.bind {f : α → CheckM β} (h : Quiet s x Q)
    (hf : ∀ a s', Still s s' → Q a s' → Quiet s' (f a) Q') : Quiet s (x >>= f) Q' := by
  unfold Quiet at *
  rw [Action.outcome_bind]
  rcases hx : x.outcome s with ⟨e | a, s1⟩
  · simpa only [hx] using h
  · rw [hx] at h
    have hf := hf a s1 h.1 h.2
    dsimp only
    rcases hy : (f a).outcome s1 with ⟨e | b, s2⟩ <;> rw [hy] at hf
    · exact h.1.silent.trans hf
    · exact ⟨h.1.trans hf.1, hf.2⟩

theorem quiet_pure {a : α} (h : s.table.Wf) (hQ : Q a s) : Quiet s (pure a) Q := ⟨.refl h, hQ⟩

theorem quiet_done {a : α} (h : s.table.Wf) : Quiet s (pure a) fun _ _ => True :=
  quiet_pure h trivial

theorem quiet_fail {e : TypeError} : Quiet s (Action.fail e) Q := silent_of_events rfl

theorem quiet_abort {f : Fault} : Quiet s (Action.abort f) Q := silent_of_events rfl

theorem quiet_modify {f : CheckState → CheckState} (h : Still s (f s)) :
    Quiet s (modify f) fun _ s' => s' = f s := ⟨h, rfl⟩

theorem quiet_set (h : Still s s') : Quiet s (set s') fun (_ : PUnit) t => t = s' := ⟨h, rfl⟩

theorem quiet_get_bind {f : CheckState → CheckM β} (h : Quiet s (f s) Q') :
    Quiet s (get >>= f) Q' := h

theorem quiet_require {r : Except Fault α} (h : s.table.Wf) :
    Quiet s (Action.require r) fun a s' => s' = s ∧ r = .ok a := by
  cases r with
  | ok a => exact quiet_pure h ⟨rfl, rfl⟩
  | error f => exact quiet_abort

theorem quiet_readTable {f : VarTable → Except Fault α} (h : s.table.Wf) :
    Quiet s (readTable f) fun _ _ => True :=
  quiet_get_bind ((quiet_require h).imp fun _ _ _ => trivial)

/-- An action on the table is quiet, whatever table it leaves if it stops. -/
theorem quiet_onTable {x : Action VarTable α} (h : x.Ends s.table
    (fun _ T => T.Wf ∧ s.table.size ≤ T.size) (fun _ _ => True) fun _ => True) :
    Quiet s (onTable x) fun _ _ => True := by
  unfold Quiet
  have ho : (onTable x).outcome s =
    ((x.outcome s.table).1, { s with table := (x.outcome s.table).2 }) := rfl
  unfold Action.Ends at h
  rw [ho]
  rcases hx : x.outcome s.table with ⟨(e | f) | a, T⟩ <;> rw [hx] at h
  · exact silent_of_events rfl
  · exact silent_of_events rfl
  · exact ⟨⟨silent_of_events rfl, rfl, h.2, h.1⟩, trivial⟩

/-! ## The operations of a walk -/

theorem quiet_fresh (h : s.table.Wf) : Quiet s fresh fun t s' =>
    t = .var s.table.size ∧ s'.table.size = s.table.size + 1 :=
  have hsize : s.table.mint.2.size = s.table.size + 1 := VarTable.size_mint _
  ⟨⟨silent_of_events rfl, rfl, Nat.le_of_lt (hsize ▸ Nat.lt_succ_self _), h.mint⟩, rfl, hsize⟩

theorem quiet_note {e : Event} (h : s.table.Wf) (he : ∀ j : Journal, j.after e = j) :
    Quiet s (note e) fun _ _ => True :=
  ⟨⟨⟨[e], rfl, List.forall_mem_singleton.2 he⟩, rfl, Nat.le_refl _, h⟩, trivial⟩

theorem quiet_demand {c : Constraint} {o : Origin} (h : s.table.Wf) :
    Quiet s (demand c o) fun _ _ => True :=
  (quiet_note h fun _ => rfl).bind fun _ _ hs _ =>
    (quiet_modify ⟨silent_of_events rfl, rfl, Nat.le_refl _, hs.wf⟩).imp fun _ _ _ => trivial

/-- Most constructs end with a demand. -/
theorem quiet_lastDemand {c : Constraint} {o : Origin} {a : α} (h : s.table.Wf) :
    Quiet s (do demand c o; return a) fun _ _ => True :=
  (quiet_demand h).bind fun _ _ hs _ => quiet_done hs.wf

theorem quiet_queue (q : List Obligation) (h : s.table.Wf) :
    Quiet s (modify fun s => { s with queue := q }) fun _ _ => True :=
  ⟨⟨silent_of_events rfl, rfl, Nat.le_refl _, h⟩, trivial⟩

theorem quiet_record {pos : Span} {t : Ty} (h : s.table.Wf) :
    Quiet s (record pos t) fun _ _ => True :=
  (quiet_modify ⟨silent_of_events rfl, rfl, Nat.le_refl _, h⟩).imp fun _ _ _ => trivial

theorem quiet_instantiate {σ : Scheme} (h : s.table.Wf) :
    Quiet s (onTable (instantiate σ)) fun _ _ => True :=
  quiet_onTable ((h.instantiate_ends σ).mono (fun _ _ hT => ⟨hT.1, hT.2.1.size_le⟩)
    (fun _ _ _ => trivial) fun _ _ => trivial)

theorem quiet_solveQueue {opts : CheckOptions} (h : s.table.Wf) :
    Quiet s (solveQueue opts) fun _ _ => True := by
  have hset : Still s { s with queue := [] } := ⟨silent_of_events rfl, rfl, Nat.le_refl _, h⟩
  refine quiet_get_bind ((quiet_set hset).bind fun _ _ hs _ => ?_)
  exact quiet_onTable ((Solve.solve_ends hs.wf _ _).mono (fun _ _ hT => ⟨hT.1.1, hT.1.2.size_le⟩)
    (fun _ _ _ => trivial) fun _ _ => trivial)

theorem quiet_symbolScheme {x : SymbolId} (h : s.table.Wf) :
    Quiet s (symbolScheme x) fun _ _ => True := by
  refine quiet_get_bind ((quiet_require h).bind fun y s1 hs1 _ => ?_)
  split
  · exact quiet_done hs1.wf
  · refine (quiet_fresh hs1.wf).bind fun t s2 hs2 _ => ?_
    refine (quiet_modify ⟨silent_of_events rfl, rfl, Nat.le_refl _, hs2.wf⟩).bind
      fun _ s3 hs3 _ => ?_
    exact quiet_done hs3.wf

theorem quiet_lookup {scope : ScopeId} {name : String} {pos : Span} (h : s.table.Wf) :
    Quiet s (lookup scope name pos) fun _ _ => True := by
  refine quiet_get_bind ((quiet_require h).bind fun _ s1 hs1 _ => ?_)
  split
  · exact quiet_done hs1.wf
  · exact quiet_fail

theorem quiet_demands {t : Ty} {o : Origin} (cs : List Trait) (h : s.table.Wf) :
    Quiet s (cs.forM fun c => demand (.has t c) o) fun _ _ => True := by
  induction cs generalizing s with
  | nil => exact quiet_done h
  | cons c cs ih => exact (quiet_demand h).bind fun _ _ hs _ => ih hs.wf

theorem quiet_freshes (n : Nat) (h : s.table.Wf) :
    Quiet s ((List.replicate n ()).mapM fun _ => fresh) fun ts _ => ts.length = n := by
  induction n generalizing s with
  | zero => exact quiet_pure h rfl
  | succ n ih =>
    rw [List.replicate_succ, List.mapM_cons]
    refine (quiet_fresh h).bind fun t s1 hs1 _ => ?_
    refine (ih hs1.wf).bind fun ts s2 hs2 hts => ?_
    exact quiet_pure hs2.wf (congrArg (· + 1) hts)

theorem quiet_readSymbol {pos : Span} {x : SymbolId} (h : s.table.Wf) :
    Quiet s (readSymbol pos x) fun _ _ => True := by
  refine (quiet_symbolScheme h).bind fun σ s1 hs1 _ => ?_
  refine (quiet_instantiate hs1.wf).bind fun t s2 hs2 _ => ?_
  exact (quiet_note hs2.wf fun _ => rfl).bind fun _ s3 hs3 _ => quiet_done hs3.wf

theorem quiet_calleeSymbol {name : String} {namePos pos : Span} {home : ScopeId}
    (h : s.table.Wf) : Quiet s (calleeSymbol name namePos pos home) fun _ _ => True := by
  refine (quiet_lookup h).bind fun x s1 hs1 _ => ?_
  refine (quiet_symbolScheme hs1.wf).bind fun σ s2 hs2 _ => ?_
  refine (quiet_instantiate hs2.wf).bind fun t s3 hs3 _ => ?_
  exact (quiet_note hs3.wf fun _ => rfl).bind fun _ s4 hs4 _ => quiet_done hs4.wf

/-- The parameters of a callee are as many as its arguments. -/
theorem quiet_calleeShape {name : String} {pos : Span} {count : Nat} {t : Ty} (h : s.table.Wf) :
    Quiet s (calleeShape name pos count t) fun r _ =>
      ∀ params result, r = some (params, result) → params.length = count := by
  unfold calleeShape
  refine (quiet_readTable h).bind fun l s1 hs1 _ => ?_
  split
  · split
    · refine quiet_pure hs1.wf ?_
      rintro _ _ ⟨⟩
      assumption
    · exact quiet_fail
  · refine (quiet_freshes count hs1.wf).bind fun params s2 hs2 hlen => ?_
    refine (quiet_fresh hs2.wf).bind fun result s3 hs3 _ => ?_
    refine (quiet_demand hs3.wf).bind fun _ s4 hs4 _ => quiet_pure hs4.wf ?_
    rintro _ _ ⟨⟩
    exact hlen
  · exact quiet_pure hs1.wf nofun

/-- The fields of a layout are as many as the values given. -/
theorem quiet_initLayout {name : String} {pos : Span} {scope : ScopeId} {count : Nat}
    (h : s.table.Wf) : Quiet s (initLayout name pos scope count) fun r _ => r.2.length = count := by
  unfold initLayout
  refine (quiet_lookup h).bind fun x s1 hs1 _ => ?_
  refine (quiet_symbolScheme hs1.wf).bind fun σ s2 hs2 _ => ?_
  refine (quiet_readTable hs2.wf).bind fun l s3 hs3 _ => ?_
  split
  · split
    · exact quiet_pure hs3.wf ‹_›
    · exact quiet_fail
  · exact (quiet_readTable hs3.wf).bind fun _ _ _ _ => quiet_fail

theorem quiet_variableType {name : String} {pos : Span} {scope : ScopeId}
    {symbol : Option SymbolId} (h : s.table.Wf) :
    Quiet s (variableType name pos scope symbol) fun _ _ => True := by
  have hslot : ∀ {x : SymbolId} {s'}, s'.table.Wf →
      Quiet s' (do return (← symbolScheme x).ty) fun _ _ => True := fun h' =>
    (quiet_symbolScheme h').bind fun _ _ hs _ => quiet_done hs.wf
  unfold variableType
  cases symbol with
  | some x => exact hslot h
  | none => exact (quiet_lookup h).bind fun _ _ hs _ => hslot hs.wf

theorem quiet_typeDecl {opts : CheckOptions} {name : String} {body : Ty} {pos : Span}
    {scope : ScopeId} (h : s.table.Wf) :
    Quiet s (stmt opts (.typeDecl name body pos scope)) fun _ _ => True := by
  unfold stmt
  refine (quiet_lookup h).bind fun x s1 hs1 _ => ?_
  refine (quiet_note hs1.wf fun _ => rfl).bind fun _ s2 hs2 _ => ?_
  refine (quiet_symbolScheme hs2.wf).bind fun σ s3 hs3 _ => ?_
  exact (quiet_record hs3.wf).bind fun _ s4 hs4 _ => quiet_done hs4.wf

theorem quiet_bindFormals {bodyScope : ScopeId} (fs : List (Formal Span)) (h : s.table.Wf) :
    Quiet s (bindFormals bodyScope fs) fun _ _ => True := by
  induction fs generalizing s with
  | nil => exact quiet_done h
  | cons f fs ih =>
    unfold bindFormals
    refine (quiet_fresh h).bind fun _ s1 hs1 _ => ?_
    refine (quiet_lookup hs1.wf).bind fun x s2 hs2 _ => ?_
    refine (quiet_note hs2.wf fun _ => rfl).bind fun _ s3 hs3 _ => ?_
    refine (quiet_symbolScheme hs3.wf).bind fun σ s4 hs4 _ => ?_
    refine (quiet_demand hs4.wf).bind fun _ s5 hs5 _ => ?_
    exact (ih hs5.wf).bind fun _ s6 hs6 _ => quiet_done hs6.wf

theorem quiet_generalizeFunction {name : String} {scope : ScopeId} {x : SymbolId} {t : Ty}
    (h : s.table.Wf) : Quiet s (generalizeFunction name scope x t) fun _ _ => True := by
  unfold generalizeFunction envVars
  refine quiet_get_bind ((quiet_require h).bind fun c s1 hs1 _ => ?_)
  split
  · simp only [bind_assoc, pure_bind]
    refine quiet_get_bind ((quiet_require hs1.wf).bind fun env s2 hs2 _ => ?_)
    refine (quiet_readTable hs2.wf).bind fun σ s3 hs3 _ => ?_
    exact (quiet_modify ⟨silent_of_events rfl, rfl, Nat.le_refl _, hs3.wf⟩).imp fun _ _ _ => trivial
  · exact quiet_done hs1.wf

end

end Check

end TypeInference
