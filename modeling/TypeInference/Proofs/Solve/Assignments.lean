import TypeInference.Proofs.Solve
import TypeInference.Proofs.Unify.Minted

/-!
# Obligations as conditions on assignments

A table stands for the assignments that solve it, and an obligation for a condition on assignments
(`Meets`): a solution of the table either meets it or not, whenever it is looked at. It may also
leave it undecided (`Undecided`), if the bound of a trait becomes a variable.

`discharge_meets` reads one look at an obligation this way, where no layout is named and so equality
of types is literal. An obligation that is discharged cuts the solutions of the table down to those
that meet it, one that is put off has a bound that is a variable still, and an error or a fault
means that no solution meets it.
-/

namespace TypeInference

namespace Solve

open VarTable Ty Unify

/-! ## What is asked of an assignment -/

/-- No layout inside the layouts that the type symbols declare, these included, carries a name. -/
def NamelessLayouts (S : Setting) : Prop :=
  ∀ x y σ, S.scopes.symbol? x = some y → y.kind = .type → y.scheme = some σ → σ.ty.Nameless

/-- The known type `t` has a field of the type `w`, which under `θ` is the type declared for it. -/
def FieldIs (S : Setting) (T : VarTable) (θ : TyVar → Ty) (scope : ScopeId) (field : String)
    (w : Ty) : Ty → Prop
  | .struct _ fields => fieldType? field fields = some w
  | .con name => ∃ fields declared, fields? S scope (.con name) = .ok (some fields) ∧
      fieldType? field fields = some declared ∧ T.Minted declared ∧ declared.bind θ = w
  | _ => False

/-- The variables that have to be minted before a constraint can be decided. -/
def Readable (T : VarTable) : Constraint → Prop
  | .equal a b => T.Minted a ∧ T.Minted b
  | .has t trait => (∀ v, t = .var v → v < T.size) ∧
      ∀ field u scope, trait = .hasField field u scope → T.Minted u ∧
        ∀ n fields declared, t = .struct n fields → fieldType? field fields = some declared →
          T.Minted declared

/-- The constraint is true of the types that `θ` assigns. -/
def TrueUnder (S : Setting) (T : VarTable) (θ : TyVar → Ty) : Constraint → Prop
  | .equal a b => a.bind θ = b.bind θ
  | .has t .eq => S.traits.satisfiesEq (t.bind θ)
  | .has t .ord => S.traits.satisfiesOrd (t.bind θ)
  | .has t .callable => isFunction (t.bind θ)
  | .has t (.hasField field u scope) => FieldIs S T θ scope field (u.bind θ) (t.bind θ)
  | .has _ (.convertibleTo _) => False

/-- The constraint can be decided with the variables of `T`, and is true under `θ`. -/
def Meets (S : Setting) (T : VarTable) (θ : TyVar → Ty) (c : Constraint) : Prop :=
  Readable T c ∧ TrueUnder S T θ c

/-- The bound of the trait is a variable under `θ`. -/
def Undecided (θ : TyVar → Ty) (c : Constraint) : Prop :=
  ∃ t trait v, c = .has t trait ∧ t.bind θ = .var v

/-- The bound of the trait is a variable still. -/
def Waits (T : VarTable) (c : Constraint) : Prop :=
  ∃ t trait v, c = .has t trait ∧ T.leader t = .var v

/-- No type of the constraint is or contains a named layout, and it is no cast. -/
structure Ordinary (c : Constraint) : Prop where
  nameless : ∀ t ∈ c.types, t.Nameless
  no_cast : ∀ t u, c ≠ .has t (.convertibleTo u)

/-- Discharging the constraint may bind variables. -/
def binds : Constraint → Bool
  | .equal .. | .has _ (.hasField ..) => true
  | _ => false

section
variable {S : Setting} {T U : VarTable} {θ : TyVar → Ty} {c : Constraint} {t : Ty}

theorem Undecided.not_meets (h : Undecided θ c) : ¬ Meets S T θ c := by
  obtain ⟨t, trait, v, rfl, hv⟩ := h
  rintro ⟨-, ht⟩
  cases trait <;> simp_all [TrueUnder, TraitTable.satisfiesEq, TraitTable.satisfiesOrd, isFunction,
    FieldIs]

/-- A trait that waits is left undecided by the assignment that resolves each variable. -/
theorem Waits.undecided (h : U.Wf) (hw : Waits U c) :
    Undecided (fun v => U.resolve (.var v)) c := by
  obtain ⟨t, trait, v, rfl, hv⟩ := hw
  refine ⟨t, trait, v, rfl, ?_⟩
  obtain ⟨hr, hn⟩ := h.of_leader_eq_var hv
  rw [← resolve_eq_bind, ← h.resolve_leader, hv, h.resolve_unbound hn, hr]

/-- What a bound is known to be, it is under every solution. -/
theorem not_undecided (h : U.Wf) (hs : U.Solves θ) {trait : Trait}
    (hl : ∀ v, U.leader t ≠ .var v) : ¬ Undecided θ (.has t trait) := by
  rintro ⟨t', trait', v, he, hv⟩
  cases he
  rw [← hs.bind_leader h] at hv
  exact bind_ne_var hl θ v hv

/-! ## Traits -/

theorem satisfiesEq_bind (C : TraitTable) (ht : ∀ v, t ≠ .var v) (f : TyVar → Ty) :
    C.satisfiesEq (t.bind f) = C.satisfiesEq t := by
  cases t <;> first | rfl | exact absurd rfl (ht _)

theorem satisfiesOrd_bind (C : TraitTable) (ht : ∀ v, t ≠ .var v) (f : TyVar → Ty) :
    C.satisfiesOrd (t.bind f) = C.satisfiesOrd t := by
  cases t <;> first | rfl | exact absurd rfl (ht _)

theorem isFunction_bind (ht : ∀ v, t ≠ .var v) (f : TyVar → Ty) :
    isFunction (t.bind f) = isFunction t := by
  cases t <;> first | rfl | exact absurd rfl (ht _)

theorem fieldType?_bind (field : String) (fields : List (String × Ty)) (f : TyVar → Ty) :
    fieldType? field (bindFields f fields) = (fieldType? field fields).map (bind f) := by
  rw [bindFields_eq_map]
  unfold fieldType?
  induction fields with
  | nil => rfl
  | cons p ps ih => by_cases hp : p.1 = field <;> simp_all

theorem mem_parts_of_fieldType? {n : Option String} {field : String} {fields : List (String × Ty)}
    {d : Ty} (h : fieldType? field fields = some d) : d ∈ (Ty.struct n fields).parts := by
  obtain ⟨p, hp, rfl⟩ := Option.map_eq_some_iff.1 h
  exact List.mem_map_of_mem (List.mem_of_find?_eq_some hp)

/-- The fields of a nameless type are nameless, declared ones too. -/
theorem nameless_of_fields? (hS : NamelessLayouts S) {scope : ScopeId} {l d : Ty} {field : String}
    {fields : List (String × Ty)} (hl : l.Nameless)
    (h : fields? S scope l = .ok (some fields)) (hd : fieldType? field fields = some d) :
    d.Nameless := by
  cases denotes_of_fields? h with
  | own n => exact hl.of_mem_parts (mem_parts_of_fieldType? hd)
  | declared hb hx hy hk hσ =>
    exact (hS _ _ _ hy hk hσ).of_mem_parts (mem_parts_of_fieldType? hd)

/-- No field is found in a type that has none of the name. -/
theorem not_fieldIs {scope : ScopeId} {field : String} {w l : Ty} {r : Option (List (String × Ty))}
    (hl : ∀ v, l ≠ .var v) (h : fields? S scope l = .ok r)
    (hn : r.bind (fieldType? field) = none) : ¬ FieldIs S T θ scope field w (l.bind θ) := by
  cases l with
  | var v => exact absurd rfl (hl v)
  | struct n fs =>
    obtain rfl : some fs = r := Except.ok.inj h
    simp only [Ty.bind, FieldIs, fieldType?_bind]
    simp_all
  | con name =>
    rintro ⟨fields, d, hf, hd, -⟩
    obtain rfl : some fields = r := Except.ok.inj (hf.symm.trans h)
    simp_all
  | ptr t => exact id
  | fn ps r => exact id

/-- A field that is found has the type declared for it. -/
theorem fieldIs_iff {scope : ScopeId} {field : String} {w l d : Ty} {fields : List (String × Ty)}
    (hl : ∀ v, l ≠ .var v) (h : fields? S scope l = .ok (some fields))
    (hd : fieldType? field fields = some d) :
    FieldIs S T θ scope field w (l.bind θ) ↔
      (∀ name, l = .con name → T.Minted d) ∧ d.bind θ = w := by
  cases l with
  | var v => exact absurd rfl (hl v)
  | struct n fs =>
    obtain rfl : fs = fields := Option.some.inj (Except.ok.inj h)
    simp only [Ty.bind, FieldIs, fieldType?_bind]
    simp [hd]
  | con name =>
    constructor
    · rintro ⟨fields', d', hf, hd', hm, hw⟩
      obtain rfl : fields = fields' := Option.some.inj (Except.ok.inj (h.symm.trans hf))
      obtain rfl : d = d' := Option.some.inj (hd.symm.trans hd')
      exact ⟨fun _ _ => hm, hw⟩
    · rintro ⟨hm, hw⟩
      exact ⟨fields, d, h, hd, hm name rfl, hw⟩
  | ptr t => cases h
  | fn ps r => cases h

/-! ## One look -/

/-- No solution of the table meets the constraint. -/
def Refutes (S : Setting) (T U : VarTable) (c : Constraint) : Prop :=
  ∀ θ, U.Solves θ → ¬ Meets S T θ c

/-- The table `U'` is solved by the solutions of `U` that meet the constraint. -/
def CutsTo (S : Setting) (T U : VarTable) (c : Constraint) (U' : VarTable) : Prop :=
  (∀ θ, U'.Solves θ ↔ U.Solves θ ∧ Meets S T θ c) ∧ (binds c = false → U' = U)

/-- A trait that the outermost form of its bound settles. -/
theorem cutsTo_of_head (hf : Fit T U) {trait : Trait} (ht : ∀ v, t = .var v → v < T.size)
    {p : Ty → Bool} (hp : ∀ θ l, (∀ v, l ≠ .var v) → p (l.bind θ) = p l)
    (hl : ∀ v, U.leader t ≠ .var v) (hn : ∀ field u scope, trait ≠ .hasField field u scope)
    (hc : ∀ θ, TrueUnder S T θ (.has t trait) ↔ p (t.bind θ)) :
    (p (U.leader t) = true → CutsTo S T U (.has t trait) U) ∧
      (p (U.leader t) ≠ true → Refutes S T U (.has t trait)) := by
  have hd : ∀ θ, U.Solves θ → (TrueUnder S T θ (.has t trait) ↔ p (U.leader t) = true) :=
    fun θ hs => by rw [hc, ← hs.bind_leader hf.wf, hp θ _ hl]
  have hr : Readable T (.has t trait) := ⟨ht, fun field u scope he => absurd he (hn field u scope)⟩
  refine ⟨fun h => ⟨fun θ => ⟨fun hs => ⟨hs, hr, (hd θ hs).2 h⟩, And.left⟩, fun _ => rfl⟩,
    fun h θ hs hm => h ((hd θ hs).1 hm.2)⟩

/-- Which variables have to be minted for a field to be decided, where the layout is known. -/
theorem readable_field_iff (hf : Fit T U) {field : String} {u d : Ty} {scope : ScopeId}
    {fields : List (String × Ty)} (ht : ∀ v, t = .var v → v < U.size)
    (hr : fields? S scope (U.leader t) = .ok (some fields))
    (hd : fieldType? field fields = some d) :
    Readable T (.has t (.hasField field u scope)) ∧ (∀ name, U.leader t = .con name → T.Minted d) ↔
      T.Minted u ∧ T.Minted d := by
  constructor
  · rintro ⟨⟨-, hu⟩, hc⟩
    obtain ⟨hu, hdt⟩ := hu field u scope rfl
    refine ⟨hu, ?_⟩
    cases hl : U.leader t with
    | con name => exact hc name hl
    | struct n fs =>
      rw [hl] at hr
      obtain rfl : fs = fields := Option.some.inj (Except.ok.inj hr)
      by_cases hv : ∃ v, t = .var v
      · -- a value of the table is minted as a whole
        obtain ⟨v, rfl⟩ := hv
        have hm : U.Minted (.var v) := fun w hw => List.mem_singleton.1 hw ▸ ht v rfl
        have hml := hf.wf.minted_leader hm
        rw [hl] at hml
        exact hf.minted fun w hw =>
          hml w (occurrences_of_mem_parts (mem_parts_of_fieldType? hd) hw)
      · have hlt : U.leader t = t := by cases t <;> first | rfl | exact absurd ⟨_, rfl⟩ hv
        exact hdt n fs d (hlt ▸ hl) hd
    | _ => rw [hl] at hr; cases hr
  · rintro ⟨hu, hm⟩
    refine ⟨⟨hf.size ▸ ht, fun field' u' scope' he => ?_⟩, fun _ _ => hm⟩
    cases he
    refine ⟨hu, fun n fs d' het hd' => ?_⟩
    subst het
    obtain rfl : fs = fields := Option.some.inj (Except.ok.inj hr)
    obtain rfl : d = d' := Option.some.inj (hd.symm.trans hd')
    exact hm

/-- What is decided of a field. -/
theorem decideField_meets (hS : NamelessLayouts S) (hf : Fit T U) {field : String} {u : Ty}
    {scope : ScopeId} (hnt : t.Nameless) (hnu : u.Nameless) (ht : ∀ v, t = .var v → v < U.size)
    (hl : ∀ v, U.leader t ≠ .var v) (o : Origin) :
    (decideTrait S o (U.leader t) (.hasField field u scope)).Ends U
      (fun b U' => Fit T U' ∧ (b = true → CutsTo S T U (.has t (.hasField field u scope)) U') ∧
        (b ≠ true → Refutes S T U (.has t (.hasField field u scope))))
      (fun _ _ => Refutes S T U (.has t (.hasField field u scope)))
      fun _ => Refutes S T U (.has t (.hasField field u scope)) := by
  have hnl : (U.leader t).Nameless := hf.wf.leader_of .var hf.nameless hnt
  have htrue : ∀ θ, U.Solves θ → Meets S T θ (.has t (.hasField field u scope)) →
      FieldIs S T θ scope field (u.bind θ) ((U.leader t).bind θ) := fun θ hs hm => by
    rw [hs.bind_leader hf.wf]
    exact hm.2
  refine Action.ends_require_bind (fun r hr => ?_) fun f hr θ hs hm => ?_
  · split
    · rename_i hd
      refine Action.ends_pure ⟨hf, fun hb => ?_, fun _ θ hs hm => ?_⟩
      · cases hb
      · exact not_fieldIs hl hr hd (htrue θ hs hm)
    · rename_i d hd
      obtain ⟨fields, rfl, hd⟩ := Option.bind_eq_some_iff.1 hd
      have hnd := nameless_of_fields? hS hnl hr hd
      have hiff : ∀ θ, U.Solves θ → (Meets S T θ (.has t (.hasField field u scope)) ↔
          (T.Minted u ∧ T.Minted d) ∧ d.bind θ = u.bind θ) := fun θ hs => by
        rw [← readable_field_iff hf ht hr hd, Meets, TrueUnder, ← hs.bind_leader hf.wf t,
          fieldIs_iff hl hr hd, and_assoc]
      have hU : ∀ {s : Ty}, T.Minted s → U.Minted s := fun hs v hv => hf.size ▸ hs v hv
      refine Action.Ends.bind ((hf.wf.unify_nameless_ends hf.nameless hnd hnu o).mono
        (fun _ _ => id) (fun _ _ hn θ hs hm => hn θ hs ((hiff θ hs).1 hm).2) fun _ hn θ hs hm => ?_)
        fun _ U' hU' => ?_
      · obtain ⟨⟨hu, hd⟩, -⟩ := (hiff θ hs).1 hm
        exact hn ⟨hU hd, hU hu⟩
      · obtain ⟨hf', ⟨hmd, hmu⟩, hs'⟩ := hU'
        refine Action.ends_pure ⟨hf.trans hf', fun _ => ⟨fun θ => ?_, fun hb => ?_⟩,
          (absurd rfl ·)⟩
        case refine_2 => cases hb
        rw [hs']
        refine and_congr_right fun hs => ?_
        rw [hiff θ hs]
        exact (and_iff_right ⟨hf.minted hmu, hf.minted hmd⟩).symm
  · -- the scope that the name would be looked up from does not exist
    have hm := htrue θ hs hm
    cases hlt : U.leader t with
    | con name =>
      rw [hlt] at hm hr
      obtain ⟨fields, d, hf, -⟩ := hm
      rw [hf] at hr
      cases hr
    | _ => rw [hlt] at hr; cases hr

/-- What is decided of a trait whose bound is known. -/
theorem decideTrait_meets (hS : NamelessLayouts S) (hf : Fit T U) {trait : Trait}
    (ho : Ordinary (.has t trait)) (ht : ∀ v, t = .var v → v < U.size)
    (hl : ∀ v, U.leader t ≠ .var v) (o : Origin) : (decideTrait S o (U.leader t) trait).Ends U
      (fun b U' => Fit T U' ∧ (b = true → CutsTo S T U (.has t trait) U') ∧
        (b ≠ true → Refutes S T U (.has t trait)))
      (fun _ _ => Refutes S T U (.has t trait)) fun _ => Refutes S T U (.has t trait) := by
  have hnt : t.Nameless := ho.nameless t List.mem_cons_self
  have ht' : ∀ v, t = .var v → v < T.size := hf.size ▸ ht
  cases trait with
  | eq =>
    exact Action.ends_pure ⟨hf, cutsTo_of_head hf ht'
      (fun θ l hv => satisfiesEq_bind S.traits hv θ) hl nofun fun _ => .rfl⟩
  | ord =>
    exact Action.ends_pure ⟨hf, cutsTo_of_head hf ht'
      (fun θ l hv => satisfiesOrd_bind S.traits hv θ) hl nofun fun _ => .rfl⟩
  | callable =>
    exact Action.ends_pure ⟨hf, cutsTo_of_head hf ht' (fun θ l hv => isFunction_bind hv θ) hl nofun
      fun _ => .rfl⟩
  | hasField field u scope =>
    have hnu : u.Nameless := ho.nameless u (List.mem_cons_of_mem _ List.mem_cons_self)
    exact decideField_meets hS hf hnt hnu ht hl o
  | convertibleTo u => exact absurd rfl (ho.no_cast t u)

/-- What one look at an obligation leaves: the solutions that meet it, all others having decided
against it; or the table as it was, while the bound is a variable. -/
def Seen (S : Setting) (T U : VarTable) (c : Constraint) (v : Verdict) (U' : VarTable) : Prop :=
  match v with
  | .discharged => CutsTo S T U c U' ∧ ∀ θ, U.Solves θ → ¬ Undecided θ c
  | .deferred => U' = U ∧ Waits U c

/-- One look at an obligation, read on the solutions of the table. -/
theorem discharge_meets (hS : NamelessLayouts S) (hf : Fit T U) (o : Obligation)
    (ho : Ordinary o.constraint) : (discharge S o).Ends U
      (fun v U' => Fit T U' ∧ Seen S T U o.constraint v U')
      (fun _ _ => Refutes S T U o.constraint) fun _ => Refutes S T U o.constraint := by
  obtain ⟨c, o⟩ := o
  cases c with
  | equal a b =>
    have hna : a.Nameless := ho.nameless a List.mem_cons_self
    have hnb : b.Nameless := ho.nameless b (List.mem_cons_of_mem _ List.mem_cons_self)
    refine Action.Ends.bind ((hf.wf.unify_nameless_ends hf.nameless hna hnb o).mono
      (fun _ _ => id) (fun _ _ hn θ hs hm => hn θ hs hm.2) fun _ hn θ _ hm => ?_)
      fun _ U' ⟨hf', hm, hs'⟩ => ?_
    · exact hn ⟨fun v hv => hf.size ▸ hm.1.1 v hv, fun v hv => hf.size ▸ hm.1.2 v hv⟩
    · refine Action.ends_pure ⟨hf.trans hf', ⟨fun θ => ?_, nofun⟩,
        fun θ _ ⟨_, _, _, he, _⟩ => nomatch he⟩
      rw [hs']
      refine and_congr_right fun hs => ?_
      exact (and_iff_right (⟨hf.minted hm.1, hf.minted hm.2⟩ : Readable T (.equal a b))).symm
  | has t trait =>
    unfold discharge
    refine Action.ends_get_bind ?_
    obtain ⟨hl, ht⟩ | ⟨⟨f, hl⟩, hm⟩ := U.checkedLeader_cases t
    · refine Action.ends_require_bind (fun l hl' => ?_) fun f hl' => ?_
      · obtain rfl : U.leader t = l := Except.ok.inj (hl.symm.trans hl')
        split
        · rename_i v hv
          exact Action.ends_pure ⟨hf, rfl, t, trait, v, rfl, hv⟩
        · rename_i hne
          refine Action.Ends.bind (decideTrait_meets hS hf ho ht (fun v hv => hne v hv) o)
            fun b U' ⟨hf', hb, hn⟩ => ?_
          split
          · rename_i h
            exact Action.ends_pure ⟨hf', hb h, fun θ hs => not_undecided hf.wf hs hne⟩
          · rename_i h
            refine Action.ends_get_bind (Action.ends_require_bind (fun u _ => ?_) fun _ _ => hn h)
            exact Action.ends_fail (hn h)
      · rw [hl] at hl'
        cases hl'
    · refine Action.ends_require_bind (fun l hl' => ?_) fun f hl' θ hs ⟨⟨ht, _⟩, _⟩ => ?_
      · rw [hl] at hl'
        cases hl'
      · cases t with
        | var v => exact hm fun w hw => List.mem_singleton.1 hw ▸ hf.size ▸ ht v rfl
        | _ => cases hl

end

end Solve

end TypeInference
