import TypeInference.Proofs.Solve.Casts
import TypeInference.Proofs.Unify.Closed

/-!
# Verdicts on types that unify

The solver decides `Eq`, `Ord` and `Callable` by the outermost form of a type, and a cast by
comparing whole types below their outermost forms literally. Unification identifies more: a name
with the layouts declared under it, and layouts that have no name with those that do.

What becomes of an obligation that binds nothing is settled by what its bound is known to be
(`discharge_becomes`). So two types that unify are treated alike by their outermost forms, except
where the name that stands for a layout is a builtin constructor (`unify_sameTreatment`,
`int_confused`). Between such types a cast is accepted unless a function or a layout without a name
is involved, and refused between a layout without a name and one that has one (`unify_converts`,
`nameless_not_converts`).
-/

namespace TypeInference

namespace Solve

open VarTable Unify Ty

variable {S : Setting} {T T' : VarTable} {s t u : Ty} {trait : Trait}

/-! ## One look -/

theorem decideTrait_outcome (h : T.Wf) (hb : binds (.has t trait) = false)
    (hm : ∀ s ∈ (Constraint.has t trait).types, T.Minted s) (o : Origin) :
    ∃ b, (decideTrait S o (T.leader t) trait).outcome T = (.ok b, T) ∧
      (b = true ↔ (Constraint.has t trait).Holds S T) := by
  cases trait with
  | eq | ord => exact ⟨_, rfl, .rfl⟩
  | callable => exact ⟨isFunction (T.leader t), rfl, isFunction_iff⟩
  | hasField field u scope => cases hb
  | convertibleTo u =>
    obtain ⟨ht, hu⟩ : T.Minted t ∧ T.Minted u := by simpa [Constraint.types, Trait.types] using hm
    refine ⟨S.traits.converts (T.resolve t) (T.resolve u), ?_, .rfl⟩
    unfold decideTrait
    rw [Action.outcome_get_bind, checkedResolve_of_minted (h.minted_leader ht),
      checkedResolve_of_minted hu, h.resolve_leader]
    rfl

/-- What becomes of a trait asked of `t`: it is put off while `t` is a variable, and then discharged
if it holds and refused if not. -/
inductive Becomes (S : Setting) (T : VarTable) (t : Ty) (trait : Trait) (o : Origin) :
    Except Stop Verdict → Prop
  | deferred {v : TyVar} : T.leader t = .var v → Becomes S T t trait o (.ok .deferred)
  | discharged : (∀ v, T.leader t ≠ .var v) → (Constraint.has t trait).Holds S T →
      Becomes S T t trait o (.ok .discharged)
  | refused : (∀ v, T.leader t ≠ .var v) → ¬ (Constraint.has t trait).Holds S T →
      Becomes S T t trait o (.error (.error (.traitNotSatisfied (T.resolve t) trait.name o)))

theorem discharge_becomes (h : T.Wf) (hb : binds (.has t trait) = false)
    (hm : ∀ s ∈ (Constraint.has t trait).types, T.Minted s) (o : Origin) :
    ∃ r, (discharge S ⟨.has t trait, o⟩).outcome T = (r, T) ∧ Becomes S T t trait o r := by
  have ht : T.Minted t := hm t (List.mem_cons_self ..)
  have hl : T.checkedLeader t = .ok (T.leader t) :=
    ((T.checkedLeader_cases t).resolve_right fun hf => hf.2 ht).1
  by_cases hv : ∃ v, T.leader t = .var v
  · obtain ⟨v, hv⟩ := hv
    refine ⟨_, ?_, .deferred hv⟩
    unfold discharge
    rw [Action.outcome_get_bind, hl, hv]
    rfl
  · replace hv : ∀ v, T.leader t ≠ .var v := fun v he => hv ⟨v, he⟩
    obtain ⟨b, hd, hh⟩ := decideTrait_outcome (S := S) h hb hm o
    have hx : (discharge S ⟨.has t trait, o⟩).outcome T =
        (if b then pure .discharged else refuse o (T.leader t) trait : Action _ _).outcome T := by
      unfold discharge
      rw [Action.outcome_get_bind, hl]
      simp only [Action.require, pure_bind]
      generalize T.leader t = l at hv hd ⊢
      cases l with
      | var v => exact absurd rfl (hv v)
      | _ => exact (Action.outcome_bind _ _ T).trans (by rw [hd])
    cases b with
    | true => exact ⟨_, hx, .discharged hv (hh.1 rfl)⟩
    | false =>
      refine ⟨_, hx.trans ?_, .refused hv fun hc => Bool.noConfusion (hh.2 hc)⟩
      simp only [Bool.false_eq_true, if_false, refuse]
      rw [Action.outcome_get_bind, checkedResolve_of_minted (h.minted_leader ht), h.resolve_leader]
      rfl

/-- The same has become of two obligations: both are put off, both discharged or both refused. -/
inductive SameTreatment : Except Stop Verdict → Except Stop Verdict → Prop
  | decided (v : Verdict) : SameTreatment (.ok v) (.ok v)
  | refused (e e' : TypeError) : SameTreatment (.error (.error e)) (.error (.error e'))

theorem sameTreatment_iff {o o' : Origin} {r r' : Except Stop Verdict}
    (hs : Becomes S T s trait o r) (ht : Becomes S T t trait o' r')
    (hv : (∃ v, T.leader s = .var v) ↔ ∃ v, T.leader t = .var v) :
    SameTreatment r r' ↔ ((∀ v, T.leader s ≠ .var v) →
      ((Constraint.has s trait).Holds S T ↔ (Constraint.has t trait).Holds S T)) := by
  cases hs with
  | deferred hs =>
    cases ht with
    | deferred ht => exact ⟨fun _ hn => absurd hs (hn _), fun _ => .decided _⟩
    | discharged hn | refused hn =>
      obtain ⟨w, hw⟩ := hv.1 ⟨_, hs⟩
      exact absurd hw (hn w)
  | discharged hn hs =>
    cases ht with
    | deferred ht =>
      obtain ⟨w, hw⟩ := hv.2 ⟨_, ht⟩
      exact absurd hw (hn w)
    | discharged _ ht => exact ⟨fun _ _ => iff_of_true hs ht, fun _ => .decided _⟩
    | refused _ ht => exact ⟨nofun, fun he => absurd ((he hn).1 hs) ht⟩
  | refused hn hs =>
    cases ht with
    | deferred ht =>
      obtain ⟨w, hw⟩ := hv.2 ⟨_, ht⟩
      exact absurd hw (hn w)
    | discharged _ ht => exact ⟨nofun, fun he => absurd ((he hn).2 ht) hs⟩
    | refused _ ht => exact ⟨fun _ _ => iff_of_false hs ht, fun _ => .refused ..⟩

/-! ## Traits of an outermost form -/

/-- Whether an outermost form has the trait, for the traits that it settles. -/
def headHas (C : TraitTable) : Trait → Ty → Bool
  | .eq => C.satisfiesEq
  | .ord => C.satisfiesOrd
  | .callable => isFunction
  | _ => fun _ => false

theorem holds_iff_headHas (htr : trait = .eq ∨ trait = .ord ∨ trait = .callable) :
    (Constraint.has t trait).Holds S T ↔ headHas S.traits trait (T.leader t) = true := by
  rcases htr with rfl | rfl | rfl
  · rfl
  · rfl
  · exact isFunction_iff.symm

/-- One of the types is a builtin constructor that has the trait, the other a layout declared under
its name. -/
def Confused (trait : Trait) (s t : Ty) : Prop :=
  ∃ n fs, isBuiltinName n ∧ headHas .builtin trait (.con n) ∧
    (s = .con n ∧ t = .struct (some n) fs ∨ s = .struct (some n) fs ∧ t = .con n)

theorem headHas_struct (C : TraitTable) (trait : Trait) (n : Option String)
    (fs : List (String × Ty)) : headHas C trait (.struct n fs) = false := by
  cases trait <;> rfl

theorem isBuiltinName_of_headHas {n : String} (h : headHas .builtin trait (.con n) = true) :
    isBuiltinName n := by
  cases trait with
  | eq => exact h
  | ord =>
    simp only [headHas, TraitTable.satisfiesOrd, TraitTable.builtin, List.contains_iff_mem,
      List.mem_cons, List.not_mem_nil, or_false] at h
    rcases h with rfl | rfl <;> decide
  | _ => cases h

/-- Outermost forms that may be equal have a trait alike, unless they are confused. -/
theorem headHas_eq_iff {qs : List (Ty × Ty)} (h : Decomposes s t qs) :
    headHas .builtin trait s = headHas .builtin trait t ↔ ¬ Confused trait s t := by
  cases h with
  | name n fs =>
    rw [headHas_struct, ← Bool.not_eq_true]
    refine not_congr ⟨fun h => ⟨n, fs, isBuiltinName_of_headHas h, h, .inl ⟨rfl, rfl⟩⟩, ?_⟩
    rintro ⟨m, gs, -, h, ⟨⟨⟩, -⟩ | ⟨⟨⟩, -⟩⟩
    exact h
  | declared n fs =>
    rw [headHas_struct, eq_comm, ← Bool.not_eq_true]
    refine not_congr ⟨fun h => ⟨n, fs, isBuiltinName_of_headHas h, h, .inr ⟨rfl, rfl⟩⟩, ?_⟩
    rintro ⟨m, gs, -, h, ⟨⟨⟩, -⟩ | ⟨-, ⟨⟩⟩⟩
    exact h
  | _ =>
    refine iff_of_true (by cases trait <;> rfl) ?_
    rintro ⟨n, fs, -, -, ⟨h, h'⟩ | ⟨h, h'⟩⟩ <;> cases h <;> cases h'

theorem exists_var_iff {qs : List (Ty × Ty)} (h : Decomposes s t qs) :
    (∃ v, s = .var v) ↔ ∃ v, t = .var v := by
  cases h <;> simp

/-- Outermost forms that may be equal are variables both, and have no trait, or neither is one. -/
theorem headHas_congr_iff {qs : List (Ty × Ty)} (C : TraitTable) (h : Decomposes s t qs) :
    ((∀ v, s ≠ .var v) → headHas C trait s = headHas C trait t) ↔
      headHas C trait s = headHas C trait t := by
  refine ⟨fun hn => ?_, fun h _ => h⟩
  cases h with
  | var v => rfl
  | _ => exact hn nofun

/-- After a unification the solver treats the two types alike when it looks at an `Eq`, `Ord` or
`Callable` obligation, except where it has confused a builtin constructor with a layout that is
declared under its name. -/
theorem unify_sameTreatment (hT : Reachable T) (ht : T.Minted t) (hu : T.Minted u) {o : Origin}
    (hx : (unify t u o).outcome T = (.ok (), T'))
    (htr : trait = .eq ∨ trait = .ord ∨ trait = .callable) (scopes : ScopeTree) (o1 o2 : Origin) :
    SameTreatment ((discharge ⟨scopes, .builtin⟩ ⟨.has t trait, o1⟩).outcome T').1
        ((discharge ⟨scopes, .builtin⟩ ⟨.has u trait, o2⟩).outcome T').1 ↔
      ¬ Confused trait (T'.leader t) (T'.leader u) := by
  have hr := (hT.wf.unify_ends t u o).of_ok hx
  obtain ⟨h', he, -⟩ := hr.wf hT.wf
  have hs := hr.same hT.wf rfl (t, u) (List.mem_singleton.2 rfl)
  obtain ⟨qs, hc, -⟩ := exists_parts_of_same h' hs
  have hd := confront_eq_parts.1 hc
  have hb : ∀ s, binds (.has s trait) = false := by
    rcases htr with rfl | rfl | rfl <;> exact fun _ => rfl
  have hm : ∀ {s : Ty}, T.Minted s → ∀ r ∈ (Constraint.has s trait).types, T'.Minted r := by
    intro s hs
    have hs : T'.Minted s := hs.mono he.size_le
    rcases htr with rfl | rfl | rfl <;> simpa [Constraint.types, Trait.types] using hs
  obtain ⟨r1, h1, hb1⟩ := discharge_becomes (S := ⟨scopes, .builtin⟩) h' (hb t) (hm ht) o1
  obtain ⟨r2, h2, hb2⟩ := discharge_becomes (S := ⟨scopes, .builtin⟩) h' (hb u) (hm hu) o2
  rw [h1, h2, sameTreatment_iff hb1 hb2 (exists_var_iff hd), holds_iff_headHas htr,
    holds_iff_headHas htr, ← Bool.eq_iff_iff, headHas_congr_iff _ hd, headHas_eq_iff hd]

/-- A variable that is made a pointer can be compared as pointers can. -/
theorem unify_sameTreatment_pointer :
    let T : VarTable := (∅ : VarTable).mint.2.mint.2
    let T' : VarTable := ⟨#[.root 0 (some (.ptr (.var 1))), .root 0 none]⟩
    let S : Setting := ⟨.initial, .builtin⟩
    (unify (.var 0) (.ptr (.var 1)) .builtin).outcome T = (.ok (), T') ∧
      SameTreatment ((discharge S ⟨.has (.var 0) .eq, .builtin⟩).outcome T').1
        ((discharge S ⟨.has (.ptr (.var 1)) .eq, .builtin⟩).outcome T').1 := by
  intro T T' S
  have hT : Reachable T := .tail (.tail .refl (.mint _)) (.mint _)
  have hu : (unify (.var 0) (.ptr (.var 1)) .builtin).outcome T = (.ok (), T') := rfl
  have hl : T'.leader (.ptr (.var 1)) = .ptr (.var 1) := rfl
  refine ⟨hu, (unify_sameTreatment hT (by decide) (by decide) hu (.inl rfl) .initial .builtin
    .builtin).2 ?_⟩
  rintro ⟨n, fs, -, -, ⟨-, h⟩ | ⟨-, h⟩⟩ <;> rw [hl] at h <;> cases h

/-- A builtin constructor unifies with the layout declared under its name, and has a trait that the
layout has not. -/
theorem int_confused :
    let t : Ty := .con "int"
    let u : Ty := .struct (some "int") [("x", .char)]
    let S : Setting := ⟨.initial, .builtin⟩
    (unify t u .builtin).outcome ∅ = (.ok (), ∅) ∧
      (discharge S ⟨.has t .eq, .builtin⟩).outcome ∅ = (.ok .discharged, ∅) ∧
      (discharge S ⟨.has u .eq, .builtin⟩).outcome ∅ =
        (.error (.error (.traitNotSatisfied u "Eq" .builtin)), ∅) :=
  ⟨rfl, rfl, rfl⟩

/-! ## Casts -/

theorem discharge_cast (h : T.Wf) (hs : s.Closed) (ht : t.Closed) (S : Setting) (o : Origin) :
    (discharge S ⟨.has s (.convertibleTo t), o⟩).outcome T =
      (if S.traits.converts s t then .ok .discharged
        else .error (.error (.traitNotSatisfied s (Trait.convertibleTo t).name o)), T) := by
  have hm : ∀ r ∈ (Constraint.has s (.convertibleTo t)).types, T.Minted r := by
    simpa [Constraint.types, Trait.types] using ⟨minted_closed hs, minted_closed ht⟩
  have hc : (Constraint.has s (.convertibleTo t)).Holds S T ↔ S.traits.converts s t := by
    simp only [Constraint.Holds, resolve_closed hs, resolve_closed ht]
  obtain ⟨r, hx, hr⟩ := discharge_becomes (S := S) h rfl hm o
  rw [hx]
  cases hr with
  | deferred hl =>
    rw [leader_closed hs] at hl
    exact absurd hl (hs.ne_var _)
  | discharged _ hh => rw [if_pos (hc.1 hh)]
  | refused _ hh => rw [if_neg fun h => hh (hc.2 h), resolve_closed hs]

/-- Types that are the same convert by their outermost forms, except functions and layouts without a
name. -/
theorem converts_of_same (C : TraitTable) (h : Same s t) (hf : ∀ ps r, s ≠ .fn ps r)
    (hs : ∀ fs, s ≠ .struct none fs) (ht : ∀ fs, t ≠ .struct none fs) : C.converts s t := by
  cases h with
  | refl => exact C.converts_self s
  | ptr h => simp [TraitTable.converts, TraitTable.convertsHead]
  | fn => exact absurd rfl (hf _ _)
  | @struct m n fs gs hn =>
    cases m with
    | none => exact absurd rfl (hs _)
    | some m =>
      cases n with
      | none => exact absurd rfl (ht _)
      | some n => simp [TraitTable.converts, TraitTable.convertsHead, hn m n rfl rfl]
  | name | declared => simp [TraitTable.converts, TraitTable.convertsHead]

/-- A cast between closed types that unify is accepted if they are equal, or if neither a function
nor a layout without a name is involved; between a layout without a name and one that carries one
it is refused. -/
theorem unify_converts (hT : Reachable T) (hs : s.Closed) (ht : t.Closed) {o : Origin}
    (hu : T.Unifies o s t) (S : Setting) (o' : Origin) :
    (s = t ∨ (∀ ps r, s ≠ .fn ps r) ∧ (∀ fs, s ≠ .struct none fs) ∧ (∀ fs, t ≠ .struct none fs) →
        S.traits.converts s t ∧
          (discharge S ⟨.has s (.convertibleTo t), o'⟩).outcome T = (.ok .discharged, T)) ∧
      ∀ n fs gs, s = .struct (some n) fs ∧ t = .struct none gs ∨
          s = .struct none gs ∧ t = .struct (some n) fs →
        ¬ S.traits.converts s t ∧ (discharge S ⟨.has s (.convertibleTo t), o'⟩).outcome T =
          (.error (.error (.traitNotSatisfied s (Trait.convertibleTo t).name o')), T) := by
  have h := hT.wf
  rw [h.unifies_iff hs ht] at hu
  rw [discharge_cast h hs ht]
  refine ⟨fun hst => ?_, fun n fs gs hst => ?_⟩
  · have hc : S.traits.converts s t := by
      rcases hst with rfl | ⟨hf, hs, ht⟩
      · exact S.traits.converts_self s
      · exact converts_of_same S.traits hu hf hs ht
    exact ⟨hc, by rw [if_pos hc]⟩
  · have hc : ¬ S.traits.converts s t := by
      rcases hst with ⟨rfl, rfl⟩ | ⟨rfl, rfl⟩ <;>
        simp [TraitTable.converts, TraitTable.convertsHead]
    exact ⟨hc, by rw [if_neg hc]⟩

/-- Two pointers, one to a function on a name and one to a function on its layout. -/
theorem unify_converts_pointer :
    let s : Ty := .ptr (.fn [.con "p"] .int)
    let t : Ty := .ptr (.fn [.struct (some "p") [("x", .int)]] .int)
    let S : Setting := ⟨.initial, .builtin⟩
    (∅ : VarTable).Unifies .builtin s t ∧ S.traits.converts s t ∧
      (discharge S ⟨.has s (.convertibleTo t), .builtin⟩).outcome ∅ = (.ok .discharged, ∅) := by
  intro s t S
  have hu : (∅ : VarTable).Unifies .builtin s t := rfl
  exact ⟨hu, (unify_converts .refl (by decide) (by decide) hu S .builtin).1
    (.inr ⟨nofun, nofun, nofun⟩)⟩

/-- A layout unifies with the same layout under a name, and does not convert to it. -/
theorem nameless_not_converts :
    let fs : List (String × Ty) := [("x", .int)]
    (∅ : VarTable).Unifies .builtin (.struct none fs) (.struct (some "p") fs) ∧
      TraitTable.builtin.converts (.struct none fs) (.struct (some "p") fs) = false :=
  ⟨rfl, rfl⟩

end Solve

end TypeInference
