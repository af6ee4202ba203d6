import Mathlib.Logic.Relation
import TypeInference.Proofs.Polymorphism
import TypeInference.Proofs.Unify.Run

/-!
# Tables that can arise

`Step T T'`: one operation that does not fault takes the table `T` to `T'`: minting a variable,
unifying two types, with success or with a type error, or instantiating a scheme. A table is
`Reachable` from the empty one by such steps. All of them are well-formed (`Reachable.wf`), and what
one knows, every later one knows (`Later.extends`).
-/

namespace TypeInference.VarTable

open Unify Instantiate

/-- One operation on the table (module doc). -/
inductive Step : VarTable → VarTable → Prop
  | mint (T : VarTable) : Step T T.mint.2
  | unify {T T' : VarTable} (a b : Ty) (o : Origin) :
      (unify a b o).Answers T T' → Step T T'
  | instantiate {T T' : VarTable} (s : Scheme) : (instantiate s).Answers T T' → Step T T'
  | instantiateWith {T T' : VarTable} (s : Scheme) (known known' : KnownParams) :
      (instantiateWith s).Answers (T, known) (T', known') → Step T T'

/-- Any number of operations. -/
abbrev Later : VarTable → VarTable → Prop := Relation.ReflTransGen Step

/-- A table that operations build from the empty one. -/
def Reachable (T : VarTable) : Prop := Later ∅ T

section
variable {T T' : VarTable}

theorem Wf.step (h : T.Wf) (hs : Step T T') : T'.Wf ∧ T.Extends T' := by
  cases hs with
  | mint => exact ⟨h.mint, h.extends_mint⟩
  | unify a b o ha =>
    have hr : ∀ {e T'}, Run o T [(a, b)] e T' → T'.Wf ∧ T.Extends T' := fun hr =>
      have ⟨hw, he, _⟩ := hr.wf h
      ⟨hw, he⟩
    exact ((h.unify_ends a b o).mono (fun _ _ => hr) (fun _ _ => hr) fun _ => id).of_answers ha
  | instantiate s ha =>
    refine Action.Ends.of_answers (Q := fun U => U.Wf ∧ T.Extends U)
      (F := fun _ => ¬ T.SchemeMinted s) ?_ ha
    exact (h.instantiate_ends s).mono (fun _ _ hq => ⟨hq.1, hq.2.1.extends h.toLinked⟩)
      (fun _ _ => False.elim) fun _ => id
  | instantiateWith s known known' ha =>
    refine Action.Ends.of_answers (Q := fun st => st.1.Wf ∧ T.Extends st.1)
      (F := fun _ => ¬ T.SchemeMinted s) ?_ ha
    exact (h.instantiateWith_ends s known).mono
      (fun _ _ hq => ⟨hq.1, hq.2.1.extends h.toLinked⟩) (fun _ _ => False.elim) fun _ => id

theorem Wf.later (h : T.Wf) (hl : Later T T') : T'.Wf ∧ T.Extends T' := by
  induction hl with
  | refl => exact ⟨h, .refl h.toLinked⟩
  | tail _ hs ih =>
    obtain ⟨h', he⟩ := ih.1.step hs
    exact ⟨h', ih.2.trans he⟩

theorem Reachable.wf (h : Reachable T) : T.Wf := (wf_empty.later h).1

end

end TypeInference.VarTable
