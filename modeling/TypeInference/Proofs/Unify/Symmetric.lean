import TypeInference.Proofs.Unify.Reachable
import TypeInference.Proofs.VarTable.Twins

/-!
# Unification is symmetric

Unifying `b` with `a` does what unifying `a` with `b` does, with the two sides exchanged at every
step. The two runs part when they merge two variables, since they may choose different roots; from
then on their tables are twins, and the pairs still to be made equal are crossed over (`Crossed`).
What the outermost forms of crossed pairs lead to is mirrored (`Twins.confront`), so one run can be
followed by the other rule by rule (`Run.crossed`). `unify_symmetric` says what this makes of the
answers.
-/

namespace TypeInference

namespace Confrontation

/-- The same answer with the two types exchanged. -/
def mirror : Confrontation → Confrontation
  | .parts pairs => .parts (pairs.map Prod.swap)
  | .merge v w => .merge w v
  | .differentArity m n => .differentArity n m
  | c => c

/-- The same answer with the variables renamed. -/
def rename (f : TyVar → TyVar) : Confrontation → Confrontation
  | .parts pairs => .parts (pairs.map fun p => (p.1.bind (.var <| f ·), p.2.bind (.var <| f ·)))
  | .merge v w => .merge (f v) (f w)
  | .assign v t => .assign (f v) (t.bind (.var <| f ·))
  | c => c

section
variable {f : TyVar → TyVar} {c : Confrontation}

theorem rename_eq_parts {pairs : List (Ty × Ty)} (h : c.rename f = .parts pairs) :
    ∃ qs, c = .parts qs ∧
      qs.map (fun p => (p.1.bind (.var <| f ·), p.2.bind (.var <| f ·))) = pairs := by
  cases c <;> simp_all [rename]

theorem rename_eq_merge {v w : TyVar} (h : c.rename f = .merge v w) :
    ∃ x y, c = .merge x y ∧ f x = v ∧ f y = w := by
  cases c <;> simp_all [rename]

theorem rename_eq_assign {v : TyVar} {t : Ty} (h : c.rename f = .assign v t) :
    ∃ x s, c = .assign x s ∧ f x = v ∧ s.bind (.var <| f ·) = t := by
  cases c <;> simp_all [rename]

theorem Clash.of_rename {c' : Confrontation} (h : c'.Clash) (hc : c.rename f = c') : c = c' := by
  cases h <;> cases c <;> simp_all [rename]

end

end Confrontation

namespace Ty

theorem confrontFields_swap (m n : Option String) (fs gs : List (String × Ty)) :
    confrontFields n m gs fs = (confrontFields m n fs gs).mirror := by
  unfold confrontFields
  by_cases hn : m.isSome ∧ n.isSome ∧ m ≠ n
  · rw [if_pos hn, if_pos ⟨hn.2.1, hn.1, hn.2.2.symm⟩]
    rfl
  · rw [if_neg hn, if_neg fun h => hn ⟨h.2.1, h.1, h.2.2.symm⟩]
    simp only [ne_comm (a := gs.length), ne_comm (a := gs.map Prod.fst)]
    split
    · rfl
    · split
      · rfl
      · simp [Confrontation.mirror]

theorem confront_swap (a b : Ty) : b.confront a = (a.confront b).mirror := by
  fun_cases confront a b
  case case3 => cases b <;> simp_all [confront, Confrontation.mirror]
  case case4 => cases a <;> simp_all [confront, Confrontation.mirror]
  case case14 m fs n gs =>
    rw [← confrontFields_swap]
    cases m <;> cases n <;> rfl
  case case15 hfn _ _ hstruct =>
    cases a <;> cases b
    case fn.fn => exact (hfn _ _ _ _ rfl rfl).elim
    case struct.struct => exact (hstruct _ _ _ _ rfl rfl).elim
    all_goals simp_all [confront, Confrontation.mirror]
  all_goals simp_all [confront, Confrontation.mirror, eq_comm]

theorem confrontFields_rename (f : TyVar → TyVar) (m n : Option String)
    (fs gs : List (String × Ty)) :
    confrontFields m n (bindFields (.var <| f ·) fs) (bindFields (.var <| f ·) gs) =
      (confrontFields m n fs gs).rename f := by
  simp only [bindFields_eq_map, confrontFields, List.length_map, List.map_map, Function.comp_def]
  split
  · rfl
  · split
    · rfl
    · split
      · rfl
      · simp only [Confrontation.rename, List.zip_map, List.map_map]
        rfl

/-- Renaming the variables of two types renames the answer, unless it makes one variable of the
types, if they are two. -/
theorem confront_rename {a b : Ty} {f : TyVar → TyVar}
    (hf : ∀ v w, a = .var v → b = .var w → f v = f w → v = w) :
    (a.bind (.var <| f ·)).confront (b.bind (.var <| f ·)) = (a.confront b).rename f := by
  fun_cases confront a b
  case case3 => cases b <;> simp_all [confront, Confrontation.rename, bind]
  case case4 => cases a <;> simp_all [confront, Confrontation.rename, bind]
  case case8 hl =>
    simp only [bind, bindAll_eq_map, confront, List.length_map, if_pos hl, Confrontation.rename,
      List.zip_map, List.map_append]
    rfl
  case case14 m fs n gs =>
    rw [← confrontFields_rename]
    cases m <;> cases n <;> rfl
  case case15 hfn _ _ hstruct =>
    cases a <;> cases b
    case fn.fn => exact (hfn _ _ _ _ rfl rfl).elim
    case struct.struct => exact (hstruct _ _ _ _ rfl rfl).elim
    all_goals simp_all [confront, Confrontation.rename, bind]
  all_goals simp_all [confront, Confrontation.rename, bind, bindAll_eq_map]

end Ty

/-- The error that answers an error when the two types are exchanged: expected and found change
places, and types are alike. -/
inductive TypeError.Mirrors (T : VarTable) : TypeError → TypeError → Prop
  | mismatch {a b a' b' : Ty} (o : Origin) : T.Alike a b' → T.Alike b a' →
      Mirrors T (.mismatch a b o) (.mismatch a' b' o)
  | arity (m n : Nat) (o : Origin) : Mirrors T (.arityMismatch m n o) (.arityMismatch n m o)
  | occurs {v w : TyVar} {t u : Ty} (o : Origin) : T.root v = T.root w → T.Alike t u →
      Mirrors T (.occursCheck v t o) (.occursCheck w u o)

namespace Unify

open VarTable

variable {o : Origin} {T T' U : VarTable} {ps qs : List (Ty × Ty)} {e : Option TypeError}

/-! ## Runs from one table -/

/-- A run is determined by where it starts. -/
theorem Run.unique (h : Run o T ps e T') {e' : Option TypeError} {T'' : VarTable}
    (h' : Run o T ps e' T'') : e = e' ∧ T' = T'' := by
  induction h with
  | done T =>
    cases h'
    exact ⟨rfl, rfl⟩
  | parts hc _ ih =>
    cases h' with
    | parts hc' h' =>
      cases hc.symm.trans hc'
      exact ih h'
    | merge hc' | assign hc' | occurs _ hc' => cases hc.symm.trans hc'
    | clash _ he =>
      rw [hc] at he
      cases he
  | merge hc _ _ _ ih =>
    cases h' with
    | merge hc' _ _ h' =>
      cases hc.symm.trans hc'
      exact ih h'
    | parts hc' | assign hc' | occurs _ hc' => cases hc.symm.trans hc'
    | clash _ he =>
      rw [hc] at he
      cases he
  | assign hc _ _ ho _ ih =>
    cases h' with
    | assign hc' _ _ _ h' =>
      cases hc.symm.trans hc'
      exact ih h'
    | occurs _ hc' ho' =>
      cases hc.symm.trans hc'
      cases ho.symm.trans ho'
    | parts hc' | merge hc' => cases hc.symm.trans hc'
    | clash _ he =>
      rw [hc] at he
      cases he
  | occurs _ hc ho =>
    cases h' with
    | assign hc' _ _ ho' =>
      cases hc.symm.trans hc'
      cases ho.symm.trans ho'
    | occurs _ hc' =>
      cases hc.symm.trans hc'
      exact ⟨rfl, rfl⟩
    | parts hc' | merge hc' => cases hc.symm.trans hc'
    | clash _ he =>
      rw [hc] at he
      cases he
  | clash _ he =>
    cases h' with
    | parts hc' | merge hc' | assign hc' | occurs _ hc' =>
      rw [hc'] at he
      cases he
    | clash _ he' =>
      rw [he] at he'
      exact ⟨he', rfl⟩

/-! ## Crossed pairs -/

/-- Each type of one pair is alike to the other type of the other. -/
def Crossed (T : VarTable) (p q : Ty × Ty) : Prop := T.Alike p.1 q.2 ∧ T.Alike p.2 q.1

theorem Crossed.mono {p q : Ty × Ty} (h : Crossed T p q)
    (hr : ∀ v, T'.root (T.root v) = T'.root v) : Crossed T' p q :=
  ⟨h.1.mono hr, h.2.mono hr⟩

theorem crossed_of_map
    (h : qs.map (fun p => (T.rooted p.1, T.rooted p.2)) =
      (ps.map Prod.swap).map fun p => (T.rooted p.1, T.rooted p.2)) :
    List.Forall₂ (Crossed T) ps qs := by
  rw [List.map_map, eq_comm, ← List.forall₂_eq_eq_eq, List.forall₂_map_left_iff,
    List.forall₂_map_right_iff] at h
  exact h.imp fun p q hpq => ⟨congrArg Prod.snd hpq, congrArg Prod.fst hpq⟩

end Unify

namespace VarTable

open Unify

variable {T U : VarTable}

/-- In twins the outermost forms of crossed pairs lead to mirrored answers. -/
theorem Twins.confront (h : Twins T U) (hT : T.Wf) (hU : U.Wf) {a b a' b' : Ty}
    (hp : Crossed T (a, b) (a', b')) :
    ((U.leader a').confront (U.leader b')).rename T.root =
      ((T.leader a).confront (T.leader b)).mirror.rename T.root := by
  have ha : T.Alike (T.leader a) (U.leader b') := h.leader hT hU hp.1
  have hb : T.Alike (T.leader b) (U.leader a') := h.leader hT hU hp.2
  rw [← Ty.confront_swap, ← Ty.confront_rename fun v w hv hw hr => ?_,
    ← Ty.confront_rename fun v w hv hw hr => ?_]
  · exact congrArg₂ Ty.confront hb.symm ha.symm
  · rwa [(hT.of_leader_eq_var hv).1, (hT.of_leader_eq_var hw).1] at hr
  · rw [← h.root_iff] at hr
    rwa [(hU.of_leader_eq_var hv).1, (hU.of_leader_eq_var hw).1] at hr

end VarTable

namespace Unify

open VarTable

variable {o : Origin} {T T' U : VarTable} {ps qs : List (Ty × Ty)} {e : Option TypeError}

/-! ## Mirrored runs -/

/-- The error that a clash leads to is mirrored. -/
theorem clash_crossed (h : Twins T U) (hT : T.Wf) (hU : U.Wf) {a b a' b' : Ty} {err : TypeError}
    (hp : Crossed T (a, b) (a', b'))
    (he : clashError? T o (T.leader a) (T.leader b) ((T.leader a).confront (T.leader b)) =
      some err) :
    ∃ err', clashError? U o (U.leader a') (U.leader b')
      ((U.leader a').confront (U.leader b')) = some err' ∧ err.Mirrors T err' := by
  have ha : T.Alike (T.leader a) (U.leader b') := h.leader hT hU hp.1
  have hb : T.Alike (T.leader b) (U.leader a') := h.leader hT hU hp.2
  have hc := h.confront hT hU hp
  generalize (T.leader a).confront (T.leader b) = c at he hc
  cases c with
  | differentShape =>
    cases he
    rw [Confrontation.Clash.shape.of_rename hc]
    exact ⟨_, rfl, .mismatch o (h.alike_resolve hT hU ha) (h.alike_resolve hT hU hb)⟩
  | differentNames =>
    cases he
    rw [Confrontation.Clash.names.of_rename hc]
    exact ⟨_, rfl, .mismatch o ha hb⟩
  | differentArity m n =>
    cases he
    rw [(Confrontation.Clash.arity n m).of_rename hc]
    exact ⟨_, rfl, .arity m n o⟩
  | _ => cases he

/-- A run on crossed pairs in a twin of the table does the same in mirror image, and its table stays
a twin. -/
theorem Run.crossed (hr : Run o T ps e T') {U : VarTable} {qs : List (Ty × Ty)} (h : Twins T U)
    (hT : T.Wf) (hU : U.Wf) (hps : List.Forall₂ (Crossed T) ps qs) :
    ∃ e' U', Run o U qs e' U' ∧ Twins T' U' ∧ Option.Rel (TypeError.Mirrors T') e e' := by
  induction hr generalizing U qs with
  | done T =>
    cases hps
    exact ⟨none, U, .done U, h, .none⟩
  | parts hc _ ih =>
    obtain ⟨⟨a', b'⟩, qs, hp, hqs, rfl⟩ := List.forall₂_cons_left_iff.1 hps
    have hc' := h.confront hT hU hp
    rw [hc] at hc'
    obtain ⟨pairs, hc', hpairs⟩ := Confrontation.rename_eq_parts hc'
    obtain ⟨e', U', hr', hres⟩ := ih h hT hU (List.rel_append (crossed_of_map hpairs) hqs)
    exact ⟨e', U', .parts hc' hr', hres⟩
  | @merge T T' a b v w ps e hc hv hw _ ih =>
    obtain ⟨⟨a', b'⟩, qs, hp, hqs, rfl⟩ := List.forall₂_cons_left_iff.1 hps
    have hc' := h.confront hT hU hp
    rw [hc] at hc'
    obtain ⟨w', v', hc', hw', hv'⟩ := Confrontation.rename_eq_merge hc'
    have hvU : v' < U.size := h.size ▸ hT.lt_of_root_eq hv'.symm hv
    have hwU : w' < U.size := h.size ▸ hT.lt_of_root_eq hw'.symm hw
    obtain ⟨ha, hb, hne⟩ := Ty.confront_eq_merge.1 hc
    obtain ⟨hrv, hvv⟩ := hT.of_leader_eq_var ha
    obtain ⟨hrw, hvw⟩ := hT.of_leader_eq_var hb
    obtain ⟨hT1, he, -⟩ := unite_of_merge hT hc hv hw
    obtain ⟨hU1, -, -⟩ := unite_of_merge hU hc' hwU hvU
    have h1 : Twins (T.unite v w) (U.unite w' v') :=
      h.unite hT hU hv hw (by rwa [hrv, hrw]) hvv hvw hv' hw'
    obtain ⟨e', U', hr', hres⟩ := ih h1 hT1 hU1 (hqs.imp fun _ _ hp => hp.mono he.root_root)
    exact ⟨e', U', .merge hc' hwU hvU hr', hres⟩
  | @assign T T' a b t v ps e hc hv ht ho _ ih =>
    obtain ⟨⟨a', b'⟩, qs, hp, hqs, rfl⟩ := List.forall₂_cons_left_iff.1 hps
    have hc' := h.confront hT hU hp
    rw [hc] at hc'
    obtain ⟨v', t', hc', hv', ht'⟩ := Confrontation.rename_eq_assign hc'
    replace ht' : T.Alike t t' := Eq.symm ht'
    have hvU : v' < U.size := h.size ▸ hT.lt_of_root_eq hv'.symm hv
    have htU : U.Minted t' := fun u hu => h.size ▸ ht'.minted hT.toLinked ht u hu
    obtain ⟨⟨-, hvv⟩, -⟩ := unbound_of_assign hT hc
    have hoU : U.occurs v' t' = false := (h.occurs hT hU hvv hv'.symm ht').trans ho
    obtain ⟨hT1, he⟩ := assign_of_assign hT hc hv ht ho
    obtain ⟨hU1, -⟩ := assign_of_assign hU hc' hvU htU hoU
    have h1 : Twins (T.assign v t) (U.assign v' t') := h.assign hT hU hv hv' ht'
    obtain ⟨e', U', hr', hres⟩ := ih h1 hT1 hU1 (hqs.imp fun _ _ hp => hp.mono he.root_root)
    exact ⟨e', U', .assign hc' hvU htU hoU hr', hres⟩
  | @occurs T a b t v ps hc ho =>
    obtain ⟨⟨a', b'⟩, qs, hp, hqs, rfl⟩ := List.forall₂_cons_left_iff.1 hps
    have hc' := h.confront hT hU hp
    rw [hc] at hc'
    obtain ⟨v', t', hc', hv', ht'⟩ := Confrontation.rename_eq_assign hc'
    replace ht' : T.Alike t t' := Eq.symm ht'
    obtain ⟨⟨-, hvv⟩, -⟩ := unbound_of_assign hT hc
    have hoU : U.occurs v' t' = true := (h.occurs hT hU hvv hv'.symm ht').trans ho
    exact ⟨_, U, .occurs qs hc' hoU, h,
      .some (.occurs o hv'.symm (h.alike_resolve hT hU ht'))⟩
  | clash ps he =>
    obtain ⟨⟨a', b'⟩, qs, hp, hqs, rfl⟩ := List.forall₂_cons_left_iff.1 hps
    obtain ⟨err', he', hm⟩ := clash_crossed h hT hU hp he
    exact ⟨some err', U, .clash qs he', h, .some hm⟩

end Unify

namespace VarTable

open Unify

variable {T : VarTable}

/-- Unification is symmetric. On a reachable table and minted types, unifying `a` with `b` and `b`
with `a` both succeed or both fail with an error of the same kind, in which expected and found have
changed places. When they succeed, the two tables left have the same classes, of which the same are
bound; and they resolve a type alike but for which member of an unbound class stands for it. -/
theorem unify_symmetric (hT : Reachable T) {a b : Ty} (ha : T.Minted a) (hb : T.Minted b)
    (o : Origin) :
    (∃ T1 T2, (unify a b o).outcome T = (.ok (), T1) ∧ (unify b a o).outcome T = (.ok (), T2) ∧
        (∀ v w, T1.root v = T1.root w ↔ T2.root v = T2.root w) ∧
        (∀ v, T1.value? v = none ↔ T2.value? v = none) ∧
        ∀ t, (∀ v ∈ (T1.resolve t).occurrences, T1.value? v = none) ∧
          T2.resolve t = T2.rooted (T1.resolve t)) ∨
      ∃ e1 e2 T1 T2, (unify a b o).outcome T = (.error (.error e1), T1) ∧
        (unify b a o).outcome T = (.error (.error e2), T2) ∧ e1.Mirrors T1 e2 := by
  have h := hT.wf
  have hcross : List.Forall₂ (Crossed T) [(a, b)] [(b, a)] := .cons ⟨.refl T a, .refl T b⟩ .nil
  obtain ⟨T1, h1, hr1⟩ | ⟨e1, T1, h1, hr1⟩ := h.unify_run ha hb o
  · obtain ⟨e', U, hr, htwins, he⟩ := hr1.crossed (.refl T) h h hcross
    cases he
    obtain ⟨T2, h2, hr2⟩ | ⟨e2, T2, h2, hr2⟩ := h.unify_run hb ha o
    · obtain ⟨-, rfl⟩ := hr.unique hr2
      have hw1 : T1.Wf := (hr1.wf h).1
      have hw2 : U.Wf := (hr.wf h).1
      refine .inl ⟨T1, U, h1, h2, fun v w => (htwins.root_iff v w).symm,
        fun _ => htwins.value_none.symm, fun t => ⟨fun v hv => (hw1.of_mem_resolve hv).2, ?_⟩⟩
      exact ((htwins.symm hw1.toLinked hw2.toLinked).rooted_resolve hw2 hw1 t).symm
    · exact nomatch (hr.unique hr2).1
  · obtain ⟨e', U, hr, -, he⟩ := hr1.crossed (.refl T) h h hcross
    cases he with
    | @some _ e2 hm =>
      obtain ⟨T2, h2, hr2⟩ | ⟨e2', T2, h2, hr2⟩ := h.unify_run hb ha o
      · exact nomatch (hr.unique hr2).1
      · obtain ⟨he, -⟩ := hr.unique hr2
        cases he
        exact .inr ⟨e1, e2, T1, T2, h1, h2, hm⟩

/-- Two functions whose first parameters become one class, with a root that depends on the side, and
whose second ones are a layout and its name. -/
theorem unify_symmetric_function :
    let T : VarTable := (((∅ : VarTable).mint.2.mint.2).mint.2).mint.2
    let a : Ty := .fn [.var 0, .struct (some "p") [("x", .var 3)]] (.var 2)
    let b : Ty := .fn [.var 1, .con "p"] (.ptr (.var 0))
    let T1 : VarTable :=
      ⟨#[.link 1, .root 1 none, .root 0 (some (.ptr (.var 0))), .root 0 none]⟩
    let T2 : VarTable :=
      ⟨#[.root 1 none, .link 0, .root 0 (some (.ptr (.var 0))), .root 0 none]⟩
    (unify a b .builtin).outcome T = (.ok (), T1) ∧ (unify b a .builtin).outcome T = (.ok (), T2) ∧
      T1.resolve (.var 2) = .ptr (.var 1) ∧ T2.resolve (.var 2) = .ptr (.var 0) ∧
      (∀ v w, T1.root v = T1.root w ↔ T2.root v = T2.root w) ∧
      (∀ v, T1.value? v = none ↔ T2.value? v = none) ∧
      ∀ t, (∀ v ∈ (T1.resolve t).occurrences, T1.value? v = none) ∧
        T2.resolve t = T2.rooted (T1.resolve t) := by
  intro T a b T1 T2
  have hT : Reachable T :=
    .tail (.tail (.tail (.tail .refl (.mint _)) (.mint _)) (.mint _)) (.mint _)
  have h1 : (unify a b .builtin).outcome T = (.ok (), T1) := by decide +kernel
  have h2 : (unify b a .builtin).outcome T = (.ok (), T2) := by decide +kernel
  obtain ⟨U1, U2, hu1, hu2, h⟩ | ⟨e1, e2, U1, U2, hu1, -⟩ :=
    unify_symmetric hT (a := a) (b := b) (by decide) (by decide) .builtin
  · cases h1.symm.trans hu1
    cases h2.symm.trans hu2
    exact ⟨h1, h2, by decide +kernel, by decide +kernel, h⟩
  · cases h1.symm.trans hu1

/-- One parameter too many on one side. -/
example : ((unify (.fn [.int] .int) (.fn [] .int) .builtin).outcome ∅).1 =
      .error (.error (.arityMismatch 1 0 .builtin)) ∧
    ((unify (.fn [] .int) (.fn [.int] .int) .builtin).outcome ∅).1 =
      .error (.error (.arityMismatch 0 1 .builtin)) := by
  decide +kernel

end VarTable

end TypeInference
