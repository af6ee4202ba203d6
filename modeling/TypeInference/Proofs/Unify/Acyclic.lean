import TypeInference.Proofs.Substitution
import TypeInference.Proofs.Unify.Reachable

/-!
# Bindings without cycles

A step keeps the table well-formed, also a unification that stops halfway on a type error; so on
every table that can arise the value of a bound class is no variable, bindings lead from class to
class without a cycle, and every way of reading a type comes to an end.
-/

namespace TypeInference.VarTable

open Unify Instantiate

/-- On every table that can arise, bindings lead to types that are no variables and form no cycle,
and each reading of a type of minted variables ends, with one result: its outermost form, its
resolution around any variables, the search for a class in it and the substitution of quantified
variables. -/
theorem Reachable.readings_end {T : VarTable} (hT : Reachable T) :
    (∀ v t, T.value? v = some t → ∀ w, t ≠ .var w) ∧ WellFounded T.Inside ∧
      ∀ t, T.Minted t →
        (∀ u, Leads T t u ↔ u = T.leader t) ∧
        (∀ keep u, Resolves T keep t u ↔ u = T.resolveExcept keep t) ∧
        (∀ v < T.size, ∀ b, Meets T v t b ↔ b = T.occurs v t) ∧
        ∀ q known, ∃ u st,
          (q ≠ [] → (instantiateWith ⟨q, t⟩).outcome (T, known) = (.ok u, st)) ∧
            ∀ u' st', Substitutes q (T, known) t u' st' ↔ u' = u ∧ st' = st := by
  have h := hT.wf
  refine ⟨h.value_ne_var, h.wellFounded_inside, fun t ht => ⟨?_, ?_, ?_, ?_⟩⟩
  · exact fun _ => h.leads_iff ht
  · exact fun _ _ => h.resolves_iff ht
  · exact fun _ hv _ => h.meets_iff hv ht
  · exact fun _ known => h.substitutes_iff ht known

/-- A class bound to a pointer to another class, which a unification that failed in the end put
under a third one: the binding leads to the third class from then on. -/
theorem readings_end_after_failure :
    let T : VarTable := ⟨#[.root 0 (some (.ptr (.var 1))), .root 0 none, .root 0 none]⟩
    let T' : VarTable := ⟨#[.root 0 (some (.ptr (.var 1))), .link 2, .root 1 none]⟩
    (unify (.fn [.var 1] .int) (.fn [.var 2] .bool) .builtin).Answers T T' ∧
      WellFounded T'.Inside ∧ (∀ u, Leads T' (.var 0) u ↔ u = .ptr (.var 1)) ∧
      (∀ u, Resolves T' [] (.ptr (.var 0)) u ↔ u = .ptr (.ptr (.var 2))) ∧
      ∀ b, Meets T' 2 (.var 0) b ↔ b = true := by
  intro T T'
  have h3 : Reachable ((∅ : VarTable).mint.2.mint.2.mint.2) :=
    .tail (.tail (.tail .refl (.mint _)) (.mint _)) (.mint _)
  have hb : (unify (.var 0) (.ptr (.var 1)) .builtin).Answers
      ((∅ : VarTable).mint.2.mint.2.mint.2) T := ⟨rfl, nofun⟩
  have hf : (unify (.fn [.var 1] .int) (.fn [.var 2] .bool) .builtin).Answers T T' := ⟨rfl, nofun⟩
  have hT : Reachable T' := .tail (.tail h3 (.unify _ _ _ hb)) (.unify _ _ _ hf)
  obtain ⟨-, hwf, hr⟩ := hT.readings_end
  refine ⟨hf, hwf, fun u => ?_, fun u => ?_, fun b => ?_⟩
  · exact (hr (.var 0) (by decide)).1 u
  · exact (hr (.ptr (.var 0)) (by decide)).2.1 [] u
  · exact (hr (.var 0) (by decide)).2.2.1 2 (by decide) b

end TypeInference.VarTable
