import TypeInference.Fault
import TypeInference.TypeError

/-!
# Actions that may stop

An action works on a state and may stop early, either with a type error or with a fault. The state
reached when it stops is kept: what was unified before an error stays unified.
-/

namespace TypeInference

/-- Why an action stopped before its end. -/
inductive Stop where
  | error (e : TypeError)
  | fault (f : Fault)
  deriving DecidableEq, Repr

/-- A computation on a state `σ` that may stop. -/
abbrev Action (σ α : Type) := ExceptT Stop (StateM σ) α

namespace Action

variable {σ τ α : Type}

/-- Stop with a type error. -/
def fail (e : TypeError) : Action σ α := throw (.error e)

/-- Stop with a fault. -/
def abort (f : Fault) : Action σ α := throw (.fault f)

/-- Go on with a checked result, or stop with the fault that the check found. -/
def require (r : Except Fault α) : Action σ α :=
  match r with
  | .ok a => pure a
  | .error f => abort f

/-- Run an action on a part of a larger state. -/
def onPart (part : τ → σ) (put : τ → σ → τ) (x : Action σ α) : Action τ α := fun s =>
  let (r, p) := x.run (part s)
  (r, put s p)

/-- The outcome of an action and the state that it leaves. -/
def outcome (x : Action σ α) (s : σ) : Except Stop α × σ := x.run s

end Action

end TypeInference
