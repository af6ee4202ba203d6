import TypeInference.Check.Result
import TypeInference.Proofs.Action

/-!
# The operations of a check

What each operation that a walk is made of ends with, in terms of the state that it started in.
-/

namespace TypeInference.Check

section
variable {α : Type} {s : CheckState} {E : TypeError → CheckState → Prop} {F : Fault → Prop}

theorem onTable_ends {x : Action VarTable α} {Q : α → CheckState → Prop}
    (h : x.Ends s.table (fun a T => Q a { s with table := T })
      (fun e T => E e { s with table := T }) F) : (onTable x).Ends s Q E F := by
  unfold Action.Ends at *
  have ho : (onTable x).outcome s =
    ((x.outcome s.table).1, { s with table := (x.outcome s.table).2 }) := rfl
  rw [ho]
  rcases hx : x.outcome s.table with ⟨(e | f) | a, T⟩ <;> simpa [hx] using h

theorem readTable_ends {f : VarTable → Except Fault α} {Q : α → CheckState → Prop}
    (hQ : ∀ a, f s.table = .ok a → Q a s) (hF : ∀ g, f s.table = .error g → F g) :
    (readTable f).Ends s Q E F :=
  Action.ends_get_bind (Action.ends_require hQ hF)

theorem fresh_ends {Q : Ty → CheckState → Prop}
    (h : Q (.var s.table.size) { s with table := s.table.mint.2 }) : fresh.Ends s Q E F := h

theorem note_ends {e : Event} {Q : Unit → CheckState → Prop}
    (h : Q () { s with events := e :: s.events }) : (note e).Ends s Q E F := h

theorem record_ends {pos : Span} {t : Ty} {Q : Unit → CheckState → Prop}
    (h : Q () { s with types := s.types.insert pos t }) : (record pos t).Ends s Q E F := h

theorem demand_ends {c : Constraint} {o : Origin} {Q : Unit → CheckState → Prop}
    (h : Q () { s with events := .demand ⟨c, o⟩ :: s.events, queue := s.queue ++ [⟨c, o⟩] }) :
    (demand c o).Ends s Q E F := h

theorem solveQueue_ends {opts : CheckOptions} {Q : Unit → CheckState → Prop}
    (h : (solve ⟨s.scopes, .builtin⟩ opts.maxPasses s.queue).Ends s.table
      (fun _ T => Q () { s with queue := [], table := T })
      (fun e T => E e { s with queue := [], table := T }) F) : (solveQueue opts).Ends s Q E F := by
  unfold solveQueue
  refine Action.ends_get_bind ?_
  refine Action.Ends.bind (Action.ends_set (Q := fun _ s' => s' = { s with queue := [] }) rfl)
    fun _ s' hs => ?_
  subst hs
  exact onTable_ends h

theorem lookup_ends {scope : ScopeId} {name : String} {pos : Span}
    {Q : SymbolId → CheckState → Prop}
    (hQ : ∀ x, s.scopes.lookup? scope name = some x → Q x s)
    (hE : s.scopes.lookup? scope name = none → E (.unboundName name pos) s)
    (hF : ∀ f, s.scopes.requireScope scope = .error f → F f) :
    (lookup scope name pos).Ends s Q E F := by
  unfold lookup
  refine Action.ends_get_bind (Action.ends_require_bind (fun _ _ => ?_) hF)
  split
  · exact Action.ends_pure (hQ _ ‹_›)
  · exact Action.ends_fail (hE ‹_›)

theorem symbolScheme_ends {x : SymbolId} {Q : Scheme → CheckState → Prop}
    (hfull : ∀ σ, s.scopes.scheme? x = some σ → Q σ s)
    (hempty : ∀ y, s.scopes.symbol? x = some y → y.scheme = none →
      Q (.mono (.var s.table.size)) { s with
        table := s.table.mint.2, scopes := s.scopes.setScheme x (.mono (.var s.table.size)) })
    (hF : ∀ f, s.scopes.requireSymbol x = .error f → F f) : (symbolScheme x).Ends s Q E F := by
  unfold symbolScheme
  refine Action.ends_get_bind (Action.ends_require_bind (fun y hy => ?_) hF)
  have hy : s.scopes.symbol? x = some y := by
    unfold ScopeTree.requireSymbol at hy
    split at hy
    · rename_i hs
      rw [hs, Except.ok.inj hy]
    · cases hy
  split
  · rename_i σ hσ
    exact Action.ends_pure (hfull σ (by simp [ScopeTree.scheme?, hy, hσ]))
  · rename_i hσ
    exact hempty y hy hσ

/-- What a top-level statement comes to, from what its check ends with. -/
theorem outcome_of_ends {opts : CheckOptions} {t : Stmt Span} {s' : CheckState} {o : Outcome}
    {Q : Ty → CheckState → Prop} (h : (topLevel opts t).Ends { s with events := [] } Q E F)
    (ho : outcome opts t s = .ok (o, s')) :
    (∃ τ, o = ⟨.ok τ, s'.events.reverse⟩ ∧ Q τ s') ∨
      ∃ e s1, o = ⟨.error e, s1.events.reverse⟩ ∧ s' = { s1 with queue := [], returns := [] } ∧
        E e s1 := by
  have hrun : (topLevel opts t).run { s with events := [] } =
    (topLevel opts t).outcome { s with events := [] } := rfl
  unfold outcome at ho
  unfold Action.Ends at h
  rw [hrun] at ho
  rcases hx : (topLevel opts t).outcome { s with events := [] } with ⟨(e | f) | τ, s1⟩
  · rw [hx] at h ho
    obtain ⟨rfl, rfl⟩ := Prod.mk.inj (Except.ok.inj ho)
    exact .inr ⟨e, s1, rfl, rfl, h⟩
  · rw [hx] at ho
    cases ho
  · rw [hx] at h ho
    obtain ⟨rfl, rfl⟩ := Prod.mk.inj (Except.ok.inj ho)
    exact .inl ⟨τ, rfl, h⟩

end

end TypeInference.Check
