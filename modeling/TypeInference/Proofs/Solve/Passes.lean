import TypeInference.Proofs.Solve.Assignments
import TypeInference.Proofs.Solve.Steps

/-!
# Passes and their limit

A pass that binds nothing leaves every obligation where it is: the next one puts all of them off
again (`Idle`). One that binds something either unifies the equalities of the list, of which none
is ever put off, or discharges a `HasField` for good; so at most one pass more than there are such
obligations binds anything (`weight_lt`, `PutOff.idle_or`).

`Worklist` is the loop of passes without a limit. It always ends, and a limit of two passes more
than there are `HasField` obligations already gives what it gives (`solve_eq_worklist`): the limit
is reached only by a pass that the test for progress would have stopped at, with the same error.
-/

namespace TypeInference

namespace Solve

open VarTable

variable {S : Setting} {T T' : VarTable} {o : Obligation} {os rest : List Obligation}

/-! ## The number of passes that bind -/

def isField : Constraint → Bool
  | .has _ (.hasField ..) => true
  | _ => false

def isEqual : Constraint → Bool
  | .equal .. => true
  | _ => false

/-- The number of passes that can bind something: one for the equalities, and one for each field. -/
def weight (os : List Obligation) : Nat :=
  os.countP (isField ·.constraint) + if os.any (isEqual ·.constraint) then 1 else 0

/-- Among obligations without equalities those that bind are the fields. -/
theorem countP_binds (h : ∀ o ∈ os, isEqual o.constraint = false) :
    os.countP (binds ·.constraint) = os.countP (isField ·.constraint) := by
  refine List.countP_congr fun o ho => ?_
  have hne := h o ho
  unfold binds isField
  split <;> simp_all [isEqual]

theorem weight_le (os : List Obligation) : weight os ≤ os.countP (isField ·.constraint) + 1 := by
  unfold weight
  split <;> omega

/-- Obligations that are left over weigh less if one that binds is gone. -/
theorem weight_lt (hs : rest.Sublist os) (hrest : ∀ o ∈ rest, isEqual o.constraint = false)
    (hlt : rest.countP (binds ·.constraint) < os.countP (binds ·.constraint)) :
    weight rest < weight os := by
  have hany : rest.any (isEqual ·.constraint) = false := by simpa using hrest
  have hsub : rest.countP (isField ·.constraint) ≤ os.countP (isField ·.constraint) := hs.countP_le
  rw [weight, weight, hany]
  cases ho : os.any (isEqual ·.constraint) with
  | true => exact Nat.lt_succ_of_le hsub
  | false =>
    rw [countP_binds hrest, countP_binds (by simpa using ho)] at hlt
    exact hlt

/-! ## One look -/

instance (T : VarTable) : ∀ c, Decidable (Waits T c)
  | .equal _ _ => isFalse nofun
  | .has t trait =>
    match ht : T.leader t with
    | .var v => isTrue ⟨t, trait, v, rfl, ht⟩
    | .con _ | .ptr _ | .fn .. | .struct .. => isFalse fun ⟨_, _, _, hc, hv⟩ => by
      cases hc
      rw [ht] at hv
      cases hv

theorem Waits.isEqual {c : Constraint} (h : Waits T c) : isEqual c = false := by
  obtain ⟨t, trait, v, rfl, -⟩ := h
  rfl

/-- What a look at the constraint in `T` has found, and the table it leaves. -/
def Looked (T : VarTable) (c : Constraint) : Verdict → VarTable → Prop
  | .discharged, T' => ¬ Waits T c ∧ (binds c = false → T' = T)
  | .deferred, T' => T' = T ∧ Waits T c ∧ ∀ v, c.bound? = some (.var v) → v < T.size

theorem discharge_looked (o : Obligation) : (discharge S o).Ends T (Looked T o.constraint)
    (fun _ _ => True) fun _ => True := by
  obtain ⟨c, o⟩ := o
  cases c with
  | equal a b =>
    exact Action.Ends.bind (Action.ends_anyhow _ _) fun _ T' _ => Action.ends_pure ⟨nofun, nofun⟩
  | has t trait =>
    refine Action.ends_get_bind (Action.ends_require_bind (fun l hl => ?_) fun _ _ => trivial)
    obtain ⟨ht, hm⟩ | ⟨⟨f, hf⟩, -⟩ := T.checkedLeader_cases t
    · obtain rfl : T.leader t = l := Except.ok.inj (ht.symm.trans hl)
      split
      · rename_i v hv
        exact Action.ends_pure ⟨rfl, ⟨t, trait, v, rfl, hv⟩, fun w hw => hm w (Option.some.inj hw)⟩
      · rename_i hne
        have hw : ¬ Waits T (.has t trait) := by
          rintro ⟨_, _, v, hc, hv⟩
          cases hc
          exact hne v hv
        have hkeep : (decideTrait S o (T.leader t) trait).Ends T
            (fun _ T' => binds (.has t trait) = false → T' = T) (fun _ _ => True)
            fun _ => True := by
          cases trait with
          | eq | ord | callable => exact Action.ends_pure fun _ => rfl
          | hasField field u scope =>
            exact (Action.ends_anyhow _ _).mono (fun _ _ _ hb => nomatch hb) (fun _ _ => id)
              fun _ => id
          | convertibleTo u =>
            exact Action.ends_get_bind <| Action.ends_require_bind (fun _ _ =>
              Action.ends_require_bind (fun _ _ => Action.ends_pure fun _ => rfl)
                fun _ _ => trivial) fun _ _ => trivial
        refine Action.Ends.bind hkeep fun b T' hb => ?_
        split
        · exact Action.ends_pure ⟨hw, hb⟩
        · exact Action.ends_get_bind <| Action.ends_require_bind
            (fun _ _ => Action.ends_fail trivial) fun _ _ => trivial
    · rw [hf] at hl
      cases hl

/-- The obligation is put off, and nothing has changed. -/
def Idle (S : Setting) (T : VarTable) (o : Obligation) : Prop :=
  (discharge S o).outcome T = (.ok .deferred, T)

theorem Idle.waits (h : Idle S T o) : Waits T o.constraint :=
  ((discharge_looked o).of_ok h).2.1

/-! ## One pass -/

theorem pass_cons (S : Setting) (o : Obligation) (os : List Obligation) :
    pass S (o :: os) = (do
      match ← discharge S o with
      | .discharged => pass S os
      | .deferred => return o :: (← pass S os)) := rfl

/-- A pass over obligations none of which can be decided. -/
theorem pass_of_idle : ∀ {os : List Obligation}, (∀ o ∈ os, Idle S T o) →
    (pass S os).outcome T = (.ok os, T)
  | [], _ => rfl
  | o :: os, h => by
    obtain ⟨ho, hos⟩ := List.forall_mem_cons.1 h
    rw [pass_cons, Action.outcome_bind, ho]
    simp only [Action.outcome_bind, pass_of_idle hos]
    rfl

/-- What a pass over `os` in `T` leaves: the table `T'`, and `rest` for the next pass. -/
structure PutOff (S : Setting) (T : VarTable) (os rest : List Obligation) (T' : VarTable) :
    Prop where
  sublist : rest.Sublist os
  traits : ∀ o ∈ rest, isEqual o.constraint = false
  progress : (T' = T ∧ ∀ o ∈ rest, Idle S T o) ∨
    rest.countP (binds ·.constraint) < os.countP (binds ·.constraint)

theorem PutOff.discharged (ho : Looked T o.constraint .discharged T') {T'' : VarTable}
    (h : PutOff S T' os rest T'') : PutOff S T (o :: os) rest T'' where
  sublist := h.sublist.cons o
  traits := h.traits
  progress := by
    rw [List.countP_cons]
    rcases h.progress with ⟨rfl, hidle⟩ | hlt
    · cases hb : binds o.constraint with
      | false =>
        obtain rfl := ho.2 hb
        exact .inl ⟨rfl, hidle⟩
      | true => exact .inr (Nat.lt_succ_of_le h.sublist.countP_le)
    · exact .inr (Nat.lt_of_lt_of_le hlt (Nat.le_add_right _ _))

theorem PutOff.deferred (ho : Idle S T o) (h : PutOff S T os rest T') :
    PutOff S T (o :: os) (o :: rest) T' where
  sublist := h.sublist.cons_cons o
  traits := List.forall_mem_cons.2 ⟨ho.waits.isEqual, h.traits⟩
  progress := by
    rw [List.countP_cons, List.countP_cons]
    rcases h.progress with ⟨rfl, hidle⟩ | hlt
    · exact .inl ⟨rfl, List.forall_mem_cons.2 ⟨ho, hidle⟩⟩
    · exact .inr (Nat.add_lt_add_right hlt _)

theorem pass_putOff : ∀ (os : List Obligation) (T : VarTable),
    (pass S os).Ends T (PutOff S T os) (fun _ _ => True) fun _ => True
  | [], T => Action.ends_pure ⟨.refl _, nofun, .inl ⟨rfl, nofun⟩⟩
  | o :: os, T => by
    refine Action.Ends.bind (discharge_looked o).withOutcome fun v T' ⟨hout, hv⟩ => ?_
    cases v with
    | discharged =>
      exact (pass_putOff os T').mono (fun _ _ => .discharged hv) (fun _ _ => id) fun _ => id
    | deferred =>
      obtain ⟨rfl, -⟩ := hv
      exact Action.Ends.bind (pass_putOff os T') fun rest T'' h =>
        Action.ends_pure (.deferred hout h)

namespace PutOff

/-- A pass that puts all off has decided nothing. -/
theorem idle_of_length (h : PutOff S T os rest T') (hl : rest.length = os.length) :
    T' = T ∧ ∀ o ∈ rest, Idle S T o := by
  refine h.progress.resolve_right fun hlt => ?_
  rw [h.sublist.eq_of_length hl] at hlt
  exact Nat.lt_irrefl _ hlt

/-- Nothing that a pass leaves can be decided, or there is less left that binds. -/
theorem idle_or (h : PutOff S T os rest T') :
    (∀ o ∈ rest, Idle S T' o) ∨ weight rest < weight os := by
  rcases h.progress with ⟨rfl, hidle⟩ | hlt
  · exact .inl hidle
  · exact .inr (weight_lt h.sublist h.traits hlt)

end PutOff

/-! ## All passes -/

/-- With any number of passes, nothing comes of obligations none of which can be decided. -/
theorem passes_of_idle (more : Nat) (h : ∀ p ∈ o :: os, Idle S T p) :
    (passes S more (o :: os)).outcome T = (stuck o : Action VarTable Unit).outcome T := by
  unfold passes
  rw [Action.outcome_bind, pass_of_idle h]
  cases more with
  | zero => rfl
  | succ more => simp only [if_true]

/-- `Worklist S T pending r`: the loop of passes over `pending` that no limit stops, started in `T`,
comes to an end, and it ends as `r` says. -/
inductive Worklist (S : Setting) :
    VarTable → List Obligation → Except Stop Unit × VarTable → Prop
  | done (T : VarTable) : Worklist S T [] (.ok (), T)
  | stopped {T T' : VarTable} {os : List Obligation} {e : Stop} :
      (pass S os).outcome T = (.error e, T') → Worklist S T os (.error e, T')
  | stuck {T T' : VarTable} {os rest : List Obligation} {o : Obligation} :
      (pass S os).outcome T = (.ok (o :: rest), T') → (o :: rest).length = os.length →
      Worklist S T os ((Solve.stuck o : Action VarTable Unit).outcome T')
  | again {T T' : VarTable} {os rest : List Obligation} {r : Except Stop Unit × VarTable} :
      (pass S os).outcome T = (.ok rest, T') → rest.length ≠ os.length → Worklist S T' rest r →
      Worklist S T os r

/-- Each end of the loop excludes the others. -/
theorem Worklist.unique {r r' : Except Stop Unit × VarTable} (h : Worklist S T os r)
    (h' : Worklist S T os r') : r = r' := by
  induction h with
  | done T =>
    cases h' with
    | done => rfl
    | stopped hp | stuck hp => cases hp
    | again hp hl =>
      cases hp
      exact absurd rfl hl
  | stopped hp =>
    cases h' with
    | done => cases hp
    | stopped hp' =>
      cases hp.symm.trans hp'
      rfl
    | stuck hp' | again hp' => cases hp.symm.trans hp'
  | stuck hp hl =>
    cases h' with
    | done => cases hp
    | stopped hp' => cases hp.symm.trans hp'
    | stuck hp' =>
      cases hp.symm.trans hp'
      rfl
    | again hp' hl' =>
      cases hp.symm.trans hp'
      exact absurd hl hl'
  | again hp hl _ ih =>
    cases h' with
    | done =>
      cases hp
      exact absurd rfl hl
    | stopped hp' => cases hp.symm.trans hp'
    | stuck hp' hl' =>
      cases hp.symm.trans hp'
      exact absurd hl' hl
    | again hp' _ h' =>
      cases hp.symm.trans hp'
      exact ih h'

theorem Worklist.of_idle (h : ∀ p ∈ o :: os, Idle S T p) :
    Worklist S T (o :: os) ((Solve.stuck o : Action VarTable Unit).outcome T) :=
  .stuck (pass_of_idle h) rfl

/-- Enough passes come to what the loop without a limit comes to. -/
theorem worklist_passes : ∀ (more : Nat) {pending : List Obligation} {T : VarTable},
    weight pending ≤ more → pending ≠ [] →
    Worklist S T pending ((passes S more pending).outcome T)
  | more, pending, T, hmore, hne => by
    unfold passes
    rw [Action.outcome_bind]
    have hput := pass_putOff (S := S) pending T
    rcases hp : (pass S pending).outcome T with ⟨e | rest, T'⟩
    · exact .stopped hp
    · replace hput : PutOff S T pending rest T' := hput.of_ok hp
      cases rest with
      | nil => exact .again hp (fun hl => hne (List.length_eq_zero_iff.1 hl.symm)) (.done T')
      | cons o os =>
        by_cases hl : (o :: os).length = pending.length
        · cases more with
          | zero => exact .stuck hp hl
          | succ more =>
            simp only [if_pos hl]
            exact .stuck hp hl
        · refine .again hp hl ?_
          cases more with
          | zero =>
            -- the limit ends the loop here, where the next pass would decide nothing
            exact .of_idle (hput.idle_or.resolve_right fun hlt =>
              Nat.not_lt_zero _ (Nat.lt_of_lt_of_le hlt hmore))
          | succ more =>
            simp only [if_neg hl]
            rcases hput.idle_or with hidle | hlt
            · rw [passes_of_idle more hidle]
              exact .of_idle hidle
            · exact worklist_passes more (Nat.le_of_lt_succ (Nat.lt_of_lt_of_le hlt hmore))
                (List.cons_ne_nil _ _)

theorem worklist_solve {maxPasses : Nat} {pending : List Obligation}
    (hm : pending.countP (isField ·.constraint) + 2 ≤ maxPasses) :
    Worklist S T pending ((solve S maxPasses pending).outcome T) := by
  have hw := weight_le pending
  cases pending with
  | nil => exact .done T
  | cons o os => exact worklist_passes (maxPasses - 1) (by omega) (List.cons_ne_nil o os)

/-- The limit on passes shows in no answer once it allows two passes more than there are `HasField`
obligations. Two such limits give the same answer and leave the same table, and they are those of
the loop without a limit, which comes to no other end. On a reachable table, with obligations that
speak of minted variables and scopes that exist, that end is no fault. -/
theorem solve_eq_worklist {pending : List Obligation} {m n : Nat}
    (hm : pending.countP (isField ·.constraint) + 2 ≤ m)
    (hn : pending.countP (isField ·.constraint) + 2 ≤ n) :
    (solve S m pending).outcome T = (solve S n pending).outcome T ∧
      (∀ r, Worklist S T pending r ↔ r = (solve S m pending).outcome T) ∧
      (Reachable T → S.scopes.SlotsMinted T → (∀ o ∈ pending, o.Fits S.scopes T) →
        ∀ f, ((solve S m pending).outcome T).1 ≠ .error (.fault f)) := by
  have hw : Worklist S T pending ((solve S m pending).outcome T) := worklist_solve hm
  refine ⟨hw.unique (worklist_solve hn), fun r => ⟨fun h => h.unique hw, ?_⟩, fun hT hS ho => ?_⟩
  · rintro rfl
    exact hw
  · exact (solve_steps hT.wf (fun _ => hS) m fun _ => ho).ne_fault

/-- A cast that waits for a field, which waits for a layout: two passes are too few. -/
theorem solve_eq_worklist_field :
    let T : VarTable := (∅ : VarTable).mint.2.mint.2
    let T' : VarTable := ⟨#[.root 0 (some .int), .root 0 (some (.con "p"))]⟩
    let pending : List Obligation := [
      ⟨.has (.var 0) (.convertibleTo .char), .builtin⟩,
      ⟨.has (.var 1) (.hasField "x" (.var 0) 0), .builtin⟩,
      ⟨.equal (.var 1) (.con "p"), .builtin⟩]
    (solve pointSetting 2 pending).outcome T =
        (.error (.error (.unresolvedConstraint "ConvertibleTo(int, char)" .builtin)), T') ∧
      (solve pointSetting 3 pending).outcome T = (.ok (), T') ∧
      (solve pointSetting 1000 pending).outcome T = (.ok (), T') ∧
      ∀ r, Worklist pointSetting T pending r ↔ r = (.ok (), T') := by
  intro T T' pending
  have h2 : (solve pointSetting 2 pending).outcome T =
      (.error (.error (.unresolvedConstraint "ConvertibleTo(int, char)" .builtin)), T') := by
    decide +kernel
  have h3 : (solve pointSetting 3 pending).outcome T = (.ok (), T') := by decide +kernel
  have hk : pending.countP (isField ·.constraint) + 2 ≤ 3 := by decide
  have hk' : pending.countP (isField ·.constraint) + 2 ≤ 1000 := by decide
  obtain ⟨hmn, hw, -⟩ := solve_eq_worklist (S := pointSetting) (T := T) hk hk'
  rw [h3] at hmn hw
  exact ⟨h2, h3, hmn.symm, hw⟩

end Solve

end TypeInference
