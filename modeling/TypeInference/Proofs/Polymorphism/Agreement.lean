import TypeInference.Proofs.Polymorphism.Choices
import TypeInference.Proofs.Unify.Reachable
import TypeInference.Proofs.Uses.Instance

/-!
# Instantiation and resolution of a scheme agree

Both read the scheme's type through the bindings of the table, around the quantified variables.
Resolution then writes each variable left as its root, and instantiation leaves it as it is written.
The two come to the same if no root is a quantified variable (`SchemeApart`): then the quantified
variables met are the same ones (`SchemeApart.mem_resolveScheme`), and replacing them in either
reading gives types that resolve alike (`SchemeApart.resolve_bind`).

Types that were instantiated with the same choices go on agreeing on the quantified variables that
they share, whatever happens to the table between (`instantiateWith_agrees`).
-/

namespace TypeInference

namespace VarTable

open Instantiate

/-- The variables met in `t` through the bindings of variables outside `keep`. -/
inductive Around (T : VarTable) (keep : List TyVar) (t : Ty) : TyVar → Prop
  | here {v : TyVar} : v ∈ t.occurrences → Around T keep t v
  | through {v w : TyVar} {u : Ty} : Around T keep t v → v ∉ keep → T.value? v = some u →
      w ∈ u.occurrences → Around T keep t w

/-- No variable that the scheme mentions around its quantified ones has one of them as its root. -/
def SchemeApart (T : VarTable) (s : Scheme) : Prop :=
  ∀ v, T.Around s.vars s.ty v → v ∉ s.vars → T.root v ∉ s.vars

/-- Instantiating `s` in `T`, with the choices `known`, answered `t` and left `T'` and `known'`: as
resolving `s` and replacing its quantified variables by what was chosen for them. -/
structure Agrees (T : VarTable) (s : Scheme) (known : KnownParams) (t : Ty) (T' : VarTable)
    (known' : KnownParams) : Prop where
  outcome : (instantiateWith s).outcome (T, known) = (.ok t, (T', known'))
  scheme : T.checkedResolveScheme s = .ok (T.resolveScheme s) ∧
    T'.checkedResolveScheme s = .ok (T.resolveScheme s)
  kept : ∀ v u, known.get? v = some u → known'.get? v = some u
  added : ∀ v, known'.contains v ↔ known.contains v ∨
    v ∈ s.vars ∧ v ∈ (T.resolveScheme s).ty.occurrences
  new : ∀ v u, known.get? v = none → known'.get? v = some u →
    ∃ w, u = .var w ∧ T.size ≤ w ∧ w < T'.size
  distinct : ∀ v w u, known.get? v = none → known.get? w = none → known'.get? v = some u →
    known'.get? w = some u → v = w
  resolve : T'.resolve t = T'.resolve ((T.resolveScheme s).ty.bind (replacement s.vars known'))
  minted : (∀ v u, known.get? v = some u → T.Minted u) → T'.Minted t

section
variable {T T' : VarTable} {s : Scheme} {t : Ty} {keep : List TyVar} {v w : TyVar}
  {known known' : KnownParams}

/-- What is left in an expanded type was met on the way. -/
theorem Wf.around_of_mem_expand (h : T.Wf) (hv : v ∈ (T.expand keep t).occurrences) :
    T.Around keep t v := by
  rw [expand_eq_bind] at hv
  obtain ⟨x, hx, hv⟩ := Ty.mem_occurrences_bind.1 hv
  replace hx : T.Around keep t x := .here hx
  induction x using h.induct with
  | step x ih =>
    rw [h.expand_var] at hv
    split at hv
    · exact List.mem_singleton.1 hv ▸ hx
    · cases hu : T.value? x with
      | none =>
        rw [hu] at hv
        exact List.mem_singleton.1 hv ▸ hx
      | some u =>
        rw [hu] at hv
        obtain ⟨y, hy, hv⟩ := Ty.mem_occurrences_bind.1 hv
        exact ih u hu y hy hv (hx.through ‹_› hu hy)

/-- Resolution keeps the quantified variables that an expansion does, and writes no other one. -/
theorem SchemeApart.mem_resolveScheme (ha : T.SchemeApart s) (h : T.Wf) (hv : v ∈ s.vars) :
    v ∈ (T.resolveScheme s).ty.occurrences ↔ v ∈ (T.expand s.vars s.ty).occurrences := by
  rw [resolveScheme, resolveExcept, Ty.mem_occurrences_bind]
  constructor
  · rintro ⟨x, hx, hvx⟩
    split at hvx
    · exact List.mem_singleton.1 hvx ▸ hx
    · rename_i hxs
      rw [List.mem_singleton.1 hvx] at hv
      exact absurd hv (ha x (h.around_of_mem_expand hx) hxs)
  · intro hx
    refine ⟨v, hx, ?_⟩
    rw [if_pos hv]
    exact List.mem_singleton_self v

/-- In a table that knows more, replacing quantified variables in what an expansion leaves comes to
the same as in what resolution writes. -/
theorem SchemeApart.resolve_bind (ha : T.SchemeApart s) (h : T.Wf) (h' : T'.Wf)
    (he : T.Extends T') (known : KnownParams) :
    T'.resolve ((T.expand s.vars s.ty).bind (replacement s.vars known)) =
      T'.resolve ((T.resolveScheme s).ty.bind (replacement s.vars known)) := by
  rw [resolveScheme, resolveExcept, Ty.bind_bind, VarTable.resolve_bind, VarTable.resolve_bind]
  refine Ty.bind_congr fun v hv => ?_
  by_cases hq : v ∈ s.vars
  · rw [if_pos hq]
    rfl
  · have hr : T.root v ∉ s.vars := ha v (h.around_of_mem_expand hv) hq
    rw [if_neg hq, Ty.bind, replacement, if_neg hq, replacement, if_neg hr]
    exact (h'.resolve_congr (he.root_root v)).symm

/-! ## One instantiation -/

/-- An instance resolves as the expanded scheme does with its quantified variables replaced. -/
theorem resolve_of_instantiated (hi : Instantiated T s known t T' known') (h : T.Wf) :
    T'.resolve t = T'.resolve ((T.expand s.vars s.ty).bind (replacement s.vars known')) := by
  by_cases hv : s.vars = []
  · have hr : replacement s.vars known' = .var := funext fun v => if_neg (by simp [hv])
    rw [hi.result.mono hv, hr, Ty.bind_var]
    exact ((hi.mints.extends h.toLinked).resolve_expand h hi.wf s.vars s.ty).symm
  · rw [(hi.result.poly hv).1]

theorem minted_of_instantiated (hi : Instantiated T s known t T' known') (hs : T.Minted s.ty)
    (hk : ∀ v u, known.get? v = some u → T.Minted u) : T'.Minted t := by
  by_cases hv : s.vars = []
  · rw [hi.result.mono hv]
    exact hs.mono hi.mints.size_le
  · intro w hw
    obtain ⟨-, -, hw⟩ | ⟨v, u, hu, hw⟩ := hi.result.of_mem hv hw
    · exact hw
    · obtain hu | ⟨x, rfl, -, hx⟩ := hi.chosen.new v u hu
      · exact Nat.lt_of_lt_of_le (hk v u hu w hw) hi.mints.size_le
      · exact List.mem_singleton.1 hw ▸ hx

/-- A scheme over minted variables that is apart can be instantiated, and that agrees. -/
theorem Wf.exists_agrees (h : T.Wf) (hs : T.Minted s.ty) (ha : T.SchemeApart s)
    (known : KnownParams) : ∃ t T' known', T'.Wf ∧ T.Extends T' ∧ T.Agrees s known t T' known' := by
  obtain ⟨t, T', known', ho, hi⟩ := h.exists_instantiated (h.schemeMinted hs) known
  have he := hi.mints.extends h.toLinked
  refine ⟨t, T', known', hi.wf, he, ho, ⟨checkedResolveScheme_of_minted hs, ?_⟩, hi.chosen.kept,
    fun v => ?_, fun v u hn hu => ?_, hi.picks.distinct, ?_, minted_of_instantiated hi hs⟩
  · rw [checkedResolveScheme_of_minted (hs.mono hi.mints.size_le), resolveScheme,
      hi.mints.resolveExcept_eq h hi.wf, resolveScheme]
  · rw [hi.picks.keys]
    exact or_congr_right (and_congr_right fun hv => (ha.mem_resolveScheme h hv).symm)
  · obtain hu' | hw := hi.chosen.new v u hu
    · cases hn.symm.trans hu'
    · exact hw
  · rw [resolve_of_instantiated hi h, ha.resolve_bind h hi.wf he]

/-! ## Two instantiations -/

/-- Every quantified variable of the resolved scheme has been chosen for. -/
theorem Agrees.chosen (ha : T.Agrees s known t T' known') (hq : v ∈ s.vars)
    (hv : v ∈ (T.resolveScheme s).ty.occurrences) : ∃ u, known'.get? v = some u :=
  Option.isSome_iff_exists.1 ((ha.added v).2 (.inr ⟨hq, hv⟩))

/-- The choices that later instantiations add change nothing for this one. -/
theorem Agrees.resolve_later (ha : T.Agrees s known t T' known') {T₂ : VarTable}
    {known₂ : KnownParams} (h' : T'.Wf) (h₂ : T₂.Wf) (he : T'.Extends T₂)
    (hk : ∀ v u, known'.get? v = some u → known₂.get? v = some u) :
    T₂.resolve t = T₂.resolve ((T.resolveScheme s).ty.bind (replacement s.vars known₂)) := by
  have hr : (T.resolveScheme s).ty.bind (replacement s.vars known') =
      (T.resolveScheme s).ty.bind (replacement s.vars known₂) :=
    Ty.bind_congr fun v hv => replacement_later (fun hq => ha.chosen hq hv) (hk v)
  rw [← he.resolve_resolve h' h₂, ha.resolve, he.resolve_resolve h' h₂, hr]

end

variable {T : VarTable} {s : Scheme}

/-- Instantiating a scheme over the variables of a reachable table agrees with resolving it, for any
choices made before, if no quantified variable is the root of one that the scheme mentions around
them. So do two schemes that are instantiated one after the other, with any operations between: the
choices left by the second are those of the first for what the first one met, and both types are
what those choices make of the resolved schemes. -/
theorem instantiateWith_agrees (hT : Reachable T) (hs : T.Minted s.ty) (ha : T.SchemeApart s)
    (known : KnownParams) : ∃ t T' known', T.Agrees s known t T' known' ∧
      ∀ T₁ s₁, Later T' T₁ → T₁.Minted s₁.ty → T₁.SchemeApart s₁ →
        ∃ t₁ T₂ known₂, T₁.Agrees s₁ known' t₁ T₂ known₂ ∧
          T₂.resolve t = T₂.resolve ((T.resolveScheme s).ty.bind (replacement s.vars known₂)) ∧
          ∀ q ∈ s.vars, q ∈ (T.resolveScheme s).ty.occurrences →
            ∃ u, known'.get? q = some u ∧ known₂.get? q = some u := by
  obtain ⟨t, T', known', h', -, hag⟩ := hT.wf.exists_agrees hs ha known
  refine ⟨t, T', known', hag, fun T₁ s₁ hl hs₁ ha₁ => ?_⟩
  obtain ⟨h₁, he₁⟩ := h'.later hl
  obtain ⟨t₁, T₂, known₂, h₂, he₂, hag₁⟩ := h₁.exists_agrees hs₁ ha₁ known'
  have hr := hag.resolve_later h' h₂ (he₁.trans he₂) hag₁.kept
  refine ⟨t₁, T₂, known₂, hag₁, hr, fun q hq hv => ?_⟩
  obtain ⟨u, hu⟩ := hag.chosen hq hv
  exact ⟨u, hu, hag₁.kept q u hu⟩

/-- A scheme is apart if the classes of its quantified variables hold no other variable. -/
theorem schemeApart_of_root (h : ∀ v < T.size, T.root v ∈ s.vars → v ∈ s.vars) :
    T.SchemeApart s := by
  intro v _ hv hr
  by_cases hlt : v < T.size
  · exact hv (h v hlt hr)
  · rw [root_of_size_le (Nat.not_lt.1 hlt)] at hr
    exact hv hr

/-- A scheme with a quantified variable that is bound and one that has a type already, and then,
after what was minted for the first is known, a scheme that shares it. -/
theorem instantiateWith_agrees_bound :
    let s : Scheme := ⟨[0, 1], .fn [.var 0, .var 2] (.var 1)⟩
    let s₁ : Scheme := ⟨[0], .struct none [("x", .var 0), ("y", .var 3)]⟩
    let t : Ty := .fn [.var 4, .ptr (.var 3)] .bool
    let T : VarTable :=
      ⟨#[.root 0 (some .int), .root 0 none, .root 0 (some (.ptr (.var 3))), .root 0 none]⟩
    let T₁ : VarTable := ⟨T.cells.push (.root 0 (some .char))⟩
    let known : KnownParams := ⟨[(1, .bool)]⟩
    let known' : KnownParams := ⟨[(1, .bool), (0, .var 4)]⟩
    T.Agrees s known t T.mint.2 known' ∧
      (unify (.var 4) .char .builtin).outcome T.mint.2 = (.ok (), T₁) ∧
      T₁.Agrees s₁ known' (.struct none [("x", .var 4), ("y", .var 3)]) T₁ known' ∧
      T₁.resolve t = T₁.resolve ((T.resolveScheme s).ty.bind (replacement s.vars known')) := by
  intro s s₁ t T T₁ known known'
  have hb : (unify (.fn [.var 0, .var 2] .int) (.fn [.int, .ptr (.var 3)] .int) .builtin).outcome
      (∅ : VarTable).mint.2.mint.2.mint.2.mint.2 = (.ok (), T) := by decide +kernel
  have hT : Reachable T := .tail (.tail (.tail (.tail (.tail .refl (.mint _)) (.mint _)) (.mint _))
    (.mint _)) (.unify _ _ _ (Action.answers_of_ok hb))
  have hu : (unify (.var 4) .char .builtin).outcome T.mint.2 = (.ok (), T₁) := by decide +kernel
  have ho : (instantiateWith s).outcome (T, known) = (.ok t, (T.mint.2, known')) := rfl
  have ho₁ : (instantiateWith s₁).outcome (T₁, known') =
    (.ok (.struct none [("x", .var 4), ("y", .var 3)]), (T₁, known')) := rfl
  obtain ⟨t', T', known₁, hag, hlater⟩ := instantiateWith_agrees hT (s := s) (by decide)
    (schemeApart_of_root (by decide +kernel)) known
  cases ho.symm.trans hag.outcome
  obtain ⟨t₁, T₂, known₂, hag₁, hr, -⟩ := hlater T₁ s₁
    (.single (.unify _ _ _ (Action.answers_of_ok hu))) (by decide)
    (schemeApart_of_root (by decide +kernel))
  cases ho₁.symm.trans hag₁.outcome
  exact ⟨hag, hu, hag₁, hr⟩

end VarTable

end TypeInference
