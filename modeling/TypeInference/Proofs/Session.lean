import TypeInference.Proofs.Scoping.Lookup
import TypeInference.Proofs.Solve.Steps
import TypeInference.Session

/-!
# What sessions reach

`S.Moves S'`: the session `S'` has a table that operations on tables make of that of `S`, and a tree
that operations on trees make of that of `S`. Every operation of a session moves it so
(`step_moves`); readings and the operations on traits and the queue keep both table and tree.

So whatever a session asks for, its table is one that minting, unifying and instantiating build from
the empty one (`reachable_of_runAll`), and its tree is one that opened scopes, declarations and
filled slots grow from the initial one (`grown_of_runAll`).
-/

namespace TypeInference.Session

open VarTable

/-- The session `S` comes to `S'` by operations on its table and on its tree. -/
structure Moves (S S' : Session) : Prop where
  table : Later S.table S'.table
  scopes : Relation.ReflTransGen ScopeTree.Growth S.scopes S'.scopes

section
variable {S S' S'' : Session} {op : Op} {a : Answer}

theorem Moves.refl (S : Session) : S.Moves S := ⟨.refl, .refl⟩

theorem Moves.trans (h : S.Moves S') (h' : S'.Moves S'') : S.Moves S'' :=
  ⟨h.table.trans h'.table, h.scopes.trans h'.scopes⟩

theorem Moves.of_eq (ht : S'.table = S.table) (hs : S'.scopes = S.scopes) : S.Moves S' :=
  ⟨ht ▸ .refl, hs ▸ .refl⟩

theorem Moves.of_growth (ht : S'.table = S.table)
    (hs : ScopeTree.Growth S.scopes S'.scopes) : S.Moves S' :=
  ⟨ht ▸ .refl, .single hs⟩

theorem mintMany_later : ∀ (n : Nat) (T : VarTable), Later T (mintMany n T).2
  | 0, _ => .refl
  | n + 1, T => .head (.mint T) (mintMany_later n T.mint.2)

/-- What an action on the table leaves. -/
theorem onTable_moves {α : Type} {answer : α → Answer} {x : Action VarTable α}
    (hx : Solve.Steps True x S.table) (h : S.onTable answer x = .ok (a, S')) : S.Moves S' := by
  unfold onTable at h
  unfold Solve.Steps Action.Ends at hx
  have hrun : x.run S.table = x.outcome S.table := rfl
  rw [hrun] at h
  rcases ho : x.outcome S.table with ⟨(e | f) | v, T⟩ <;> rw [ho] at hx h
  · obtain ⟨-, rfl⟩ := Prod.mk.inj (Except.ok.inj h)
    exact ⟨hx, .refl⟩
  · cases h
  · obtain ⟨-, rfl⟩ := Prod.mk.inj (Except.ok.inj h)
    exact ⟨hx, .refl⟩

/-- An answer about a scheme leaves what the question does. -/
theorem onScheme_moves {r : SchemeRef} {k : Scheme → Except Fault (Answer × Session)}
    (hk : ∀ s, k s = .ok (a, S') → S.Moves S') (h : S.onScheme r k = .ok (a, S')) :
    S.Moves S' := by
  unfold onScheme at h
  split at h
  · exact hk _ h
  · split at h
    · exact hk _ h
    · obtain ⟨-, rfl⟩ := Prod.mk.inj (Except.ok.inj h)
      exact .refl S

/-- A checked question leaves what its answer does. -/
theorem moves_of_query {α : Type} {x : Except Fault α} {k : α → Except Fault (Answer × Session)}
    (h : x >>= k = .ok (a, S')) (hk : ∀ v, x = .ok v → k v = .ok (a, S') → S.Moves S') :
    S.Moves S' := by
  obtain ⟨v, hx, hv⟩ := Action.except_bind_eq_ok.1 h
  exact hk v hx hv

/-- One operation of a session takes its table and its tree on by operations on these. -/
theorem step_moves (hS : S.table.Wf) (h : S.step op = .ok (a, S')) : S.Moves S' := by
  cases op with
  | fresh count =>
    obtain ⟨-, rfl⟩ := Prod.mk.inj (Except.ok.inj h)
    exact ⟨mintMany_later count S.table, .refl⟩
  | unify s t origin =>
    exact onTable_moves (Solve.unify_steps hS (fun hF => absurd trivial hF) origin) h
  | generalize t env save =>
    refine moves_of_query h fun s _ hs => ?_
    obtain ⟨-, rfl⟩ := Prod.mk.inj (Except.ok.inj hs)
    cases save <;> exact .of_eq rfl rfl
  | schemeFreeVars r | resolveScheme r =>
    refine onScheme_moves (fun s hs => moves_of_query hs fun v _ hv => ?_) h
    obtain ⟨-, rfl⟩ := Prod.mk.inj (Except.ok.inj hv)
    exact .refl S
  | instantiate r =>
    refine onScheme_moves (fun s hs => ?_) h
    exact onTable_moves (Solve.instantiate_steps hS fun hF => (hF trivial).elim) hs
  | instantiateWith r name =>
    refine onScheme_moves (fun s hs => ?_) h
    dsimp only at hs
    have hi := hS.instantiateWith_ends s ((S.known.get? name).getD ∅)
    have hrun : ∀ k, (instantiateWith s).run (S.table, k) =
      (instantiateWith s).outcome (S.table, k) := fun _ => rfl
    rw [hrun] at hs
    unfold Action.Ends at hi
    rcases hx : (instantiateWith s).outcome (S.table, (S.known.get? name).getD ∅) with
      ⟨(e | f) | t, T, known⟩ <;> rw [hx] at hi hs
    · exact hi.elim
    · cases hs
    · obtain ⟨-, rfl⟩ := Prod.mk.inj (Except.ok.inj hs)
      exact ⟨.single (.instantiateWith s _ known (Action.answers_of_ok hx)), .refl⟩
  | newScope parent =>
    refine moves_of_query h fun c hc hs => ?_
    obtain ⟨-, rfl⟩ := Prod.mk.inj (Except.ok.inj hs)
    exact .of_growth rfl (.newScope (ScopeTree.lt_of_requireScope hc))
  | declare scope symbol =>
    refine moves_of_query h fun c hc hs => ?_
    obtain ⟨-, rfl⟩ := Prod.mk.inj (Except.ok.inj hs)
    exact .of_growth rfl (.declare symbol (ScopeTree.lt_of_requireScope hc))
  | setType x s =>
    refine moves_of_query h fun y hy hs => ?_
    obtain ⟨-, rfl⟩ := Prod.mk.inj (Except.ok.inj hs)
    exact .of_growth rfl (.setScheme s (ScopeTree.lt_of_requireSymbol hy))
  | leader t | resolve t | occurs v t | freeVars t | retrieve scope name | find scope name
  | level scope | ancestors scope | visible scope | scope s | symbol x =>
    refine moves_of_query h fun v _ hv => ?_
    obtain ⟨-, rfl⟩ := Prod.mk.inj (Except.ok.inj hv)
    exact .refl S
  | solve maxPasses =>
    have hmoves : Moves { S with queue := [] } S' := by
      refine onTable_moves ?_ h
      exact Solve.solve_steps hS (fun hF => absurd trivial hF) maxPasses fun hF => absurd trivial hF
    exact ⟨hmoves.table, hmoves.scopes⟩
  | varCount | counts | registerEq name | registerOrd name | registerConversion source target
  | eq t | ord t | converts source target | push c origin | queue | clear | take =>
    obtain ⟨-, rfl⟩ := Prod.mk.inj (Except.ok.inj h)
    exact .of_eq rfl rfl

end

/-- Operations of a session one after another. -/
theorem runAll_moves : ∀ (ops : List Op) {S S' : Session}, S.table.Wf →
    S.runAll ops = .ok S' → S.Moves S'
  | [], S, S', _, h => by
    obtain rfl := Except.ok.inj h
    exact .refl S
  | op :: ops, S, S', hS, h => by
    unfold runAll at h
    rw [List.foldlM_cons] at h
    obtain ⟨S1, h1, h⟩ := Action.except_bind_eq_ok.1 h
    obtain ⟨⟨a, S2⟩, h2, h1⟩ := Action.except_bind_eq_ok.1 h1
    obtain rfl := Except.ok.inj h1
    have hm := step_moves hS h2
    exact hm.trans (runAll_moves ops (hS.later hm.table).1 h)

/-- The table of a session is reachable. -/
theorem reachable_of_runAll {ops : List Op} {S : Session} (h : initial.runAll ops = .ok S) :
    Reachable S.table :=
  (runAll_moves ops wf_empty h).table

/-- The tree of a session is grown. -/
theorem grown_of_runAll {ops : List Op} {S : Session} (h : initial.runAll ops = .ok S) :
    ScopeTree.Grown S.scopes :=
  (runAll_moves ops wf_empty h).scopes

end TypeInference.Session
