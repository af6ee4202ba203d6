import TypeInference.Check.State
import TypeInference.Proofs.Generalization.Solve
import TypeInference.Proofs.Program.TopLevel

/-!
# Slots that guard the quantified variables

`Guarded F a b Q s`: the variables `Q`, those quantified so far, are unbound, and the slots that can
still be read, those of root symbols and of the symbols from `a` to before `b`, avoid them. The
slots of later symbols, and written slots that no name leads to any more, are as in the tree `F`
that the program was bound in.

Filling an empty slot keeps this (`Guarded.setScheme`), and so does moving on to the symbols of
another statement (`Guarded.enter`, `Guarded.leave`).
-/

namespace TypeInference

open VarTable ScopeTree

/-- The type is that of a function. -/
def Ty.IsFn (t : Ty) : Prop := ∃ params result, t = .fn params result

/-- The slots of the state guard the variables `Q` (module doc). -/
structure Guarded (F : ScopeTree) (a b : Nat) (Q : List TyVar) (s : CheckState) : Prop where
  wf : s.table.Wf
  unbound : ∀ q ∈ Q, s.table.Unbound q
  scopes : s.scopes.scopes = F.scopes
  poly : ∀ y σ, s.scopes.scheme? y = some σ → σ.vars ≠ [] →
    F.IsHoisted y ∧ (∀ q ∈ σ.vars, q ∈ Q) ∧ σ.ty.IsFn
  slots : ∀ (y : Nat) σ, F.Rooted y ∨ (a ≤ y ∧ y < b) → s.scopes.scheme? y = some σ →
    s.table.SchemeAvoids Q σ
  resting : ∀ y : Nat, ¬ F.Rooted y → b ≤ y ∨ (F.scheme? y).isSome →
    s.scopes.scheme? y = F.scheme? y
  layouts : s.scopes.LayoutsClosed
  schemes : ∀ e ∈ s.schemes.toList, ∀ q ∈ e.2.vars, q ∈ Q

namespace ScopeTree

theorem SlotsClosed.scheme? {S : ScopeTree} (h : S.SlotsClosed) {y : SymbolId} {σ : Scheme}
    (hσ : S.scheme? y = some σ) : σ.vars = [] ∧ σ.ty.occurrences = [] := by
  obtain ⟨z, hz, hσ⟩ := Option.bind_eq_some_iff.1 hσ
  exact h y z σ hz hσ

theorem SlotsClosed.layouts {S : ScopeTree} (h : S.SlotsClosed) : S.LayoutsClosed := by
  intro y fields hf f hm
  obtain ⟨z, hz, hf⟩ := Option.bind_eq_some_iff.1 hf
  obtain ⟨-, vars, n, hσ⟩ := declaredFields?_eq_some.1 hf
  have hc := (h y z _ hz hσ).2
  rw [Ty.occurrences, Ty.occurrencesFields_eq_flatMap, List.flatMap_eq_nil_iff] at hc
  exact hc f hm

theorem LayoutsClosed.setScheme {S : ScopeTree} (h : S.LayoutsClosed) (x : SymbolId) {σ : Scheme}
    (hσ : ∀ n fields, σ.ty ≠ .struct n fields) : (S.setScheme x σ).LayoutsClosed := by
  intro y fields hf
  rw [symbol?_setScheme] at hf
  split at hf
  · obtain ⟨z, hz, hf⟩ := Option.bind_eq_some_iff.1 hf
    obtain ⟨z', -, rfl⟩ := Option.map_eq_some_iff.1 hz
    obtain ⟨-, vars, n, hs⟩ := declaredFields?_eq_some.1 hf
    exact absurd (by rw [Option.some.inj hs]) (hσ n fields)
  · exact h y fields hf

end ScopeTree

theorem VarTable.schemeAvoids_of_closed {T : VarTable} {Q : List TyVar} {σ : Scheme}
    (h : σ.ty.occurrences = []) : T.SchemeAvoids Q σ := fun v hv => by
  rw [h] at hv
  cases hv

namespace Guarded

section
variable {F : ScopeTree} {a b c : Nat} {Q : List TyVar} {s : CheckState}

/-- The parts of a state that matter. -/
theorem congr (h : Guarded F a b Q s) {s' : CheckState} (ht : s'.table = s.table)
    (hs : s'.scopes = s.scopes) (he : s'.schemes = s.schemes) : Guarded F a b Q s' where
  wf := ht ▸ h.wf
  unbound := ht ▸ h.unbound
  scopes := hs ▸ h.scopes
  poly := hs ▸ h.poly
  slots y σ hy hσ := ht ▸ h.slots y σ hy (hs ▸ hσ)
  resting := hs ▸ h.resting
  layouts := hs ▸ h.layouts
  schemes := he ▸ h.schemes

/-- The table may change as long as it spares `Q`. -/
theorem onTable (h : Guarded F a b Q s) {T : VarTable} (hT : Spares Q s.table T) :
    Guarded F a b Q { s with table := T } where
  wf := hT.wf
  unbound := hT.unbound
  scopes := h.scopes
  poly := h.poly
  slots y σ hy hσ := (h.slots y σ hy hσ).mono hT
  resting := h.resting
  layouts := h.layouts
  schemes := h.schemes

/-- Filling a slot, or replacing that of a root symbol. -/
theorem setScheme (h : Guarded F a b Q s) {x : Nat} {σ : Scheme}
    (hx : F.Rooted x ∨ (x < b ∧ ¬ (F.scheme? x).isSome)) (hσ : s.table.SchemeAvoids Q σ)
    (hp : σ.vars ≠ [] → F.IsHoisted x ∧ (∀ q ∈ σ.vars, q ∈ Q) ∧ σ.ty.IsFn)
    (hs : ∀ n fields, σ.ty ≠ .struct n fields) :
    Guarded F a b Q { s with scopes := s.scopes.setScheme x σ } where
  wf := h.wf
  unbound := h.unbound
  scopes := h.scopes
  poly y τ hτ := by
    rw [scheme?_setScheme] at hτ
    split at hτ
    · rename_i hxy
      obtain ⟨-, -, rfl⟩ := Option.map_eq_some_iff.1 hτ
      exact hxy ▸ hp
    · exact h.poly y τ hτ
  slots y τ hy hτ := by
    rw [scheme?_setScheme] at hτ
    split at hτ
    · obtain ⟨-, -, rfl⟩ := Option.map_eq_some_iff.1 hτ
      exact hσ
    · exact h.slots y τ hy hτ
  resting y hy hb := by
    rw [scheme?_setScheme, if_neg, h.resting y hy hb]
    rintro rfl
    obtain ⟨hlt, hn⟩ := hx.resolve_left hy
    exact hb.elim (Nat.not_le.2 hlt) hn
  layouts := h.layouts.setScheme x hs
  schemes := h.schemes

variable (hF : F.SlotsClosed)
include hF

theorem avoids_of_resting (h : Guarded F a b Q s) {y : Nat} {σ : Scheme} (hy : ¬ F.Rooted y)
    (hb : b ≤ y ∨ (F.scheme? y).isSome) (hσ : s.scopes.scheme? y = some σ) :
    s.table.SchemeAvoids Q σ := by
  rw [h.resting y hy hb] at hσ
  exact schemeAvoids_of_closed (hF.scheme? hσ).2

/-- The slots of a statement's symbols are as they were bound before it is checked. -/
theorem enter (h : Guarded F b b Q s) (hbc : b ≤ c) : Guarded F b c Q s where
  wf := h.wf
  unbound := h.unbound
  scopes := h.scopes
  poly := h.poly
  slots y σ hy hσ := by
    by_cases hr : F.Rooted y
    · exact h.slots y σ (.inl hr) hσ
    · exact h.avoids_of_resting hF hr (.inl (hy.resolve_left hr).1) hσ
  resting y hy hb := h.resting y hy (hb.imp_left (Nat.le_trans hbc))
  layouts := h.layouts
  schemes := h.schemes

omit hF in
/-- The symbols of a statement that was checked are read no more. -/
theorem leave (h : Guarded F a b Q s) : Guarded F b b Q s where
  wf := h.wf
  unbound := h.unbound
  scopes := h.scopes
  poly := h.poly
  slots y σ hy := h.slots y σ (hy.imp_right fun hb => absurd hb.2 (Nat.not_lt.2 hb.1))
  resting := h.resting
  layouts := h.layouts
  schemes := h.schemes

omit hF in
/-- A slot that is read as it stands has no quantified variables, unless it is that of a function.
-/
theorem avoids_ty (h : Guarded F a b Q s) {y : Nat} {σ : Scheme}
    (hσ : s.scopes.scheme? y = some σ) (ha : s.table.SchemeAvoids Q σ) :
    s.table.Avoids Q σ.ty ∨ (F.IsHoisted y ∧ σ.ty.IsFn) := by
  by_cases hv : σ.vars = []
  · exact .inl (avoids_iff.2 fun v hm => ha v hm (by simp [hv]))
  · obtain ⟨hy, -, hf⟩ := h.poly y σ hσ hv
    exact .inr ⟨hy, hf⟩

end

end Guarded

end TypeInference
