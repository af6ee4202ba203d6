import TypeInference.Check.Result
import TypeInference.Toml.Document

/-!
# Settings

The settings of the checker and of its reports, read from a TOML text. Every key may be left out,
and keys that mean nothing here are passed over. A section may also be written as an array of its
values in order; a date in the place of a section is a section without keys.
-/

namespace TypeInference

structure Settings where
  maxPasses : Nat
  color : Bool
  /-- The name of the source in reports. -/
  filename : String
  deriving DecidableEq, Repr

/-- Why a text gives no settings. -/
inductive SettingsError where
  | unreadable
  /-- No TOML, or a value of the wrong type. -/
  | malformed
  | noPasses
  deriving DecidableEq, Repr

namespace SettingsError

def message : SettingsError → String
  | .unreadable => "Failed to read config"
  | .malformed => "Failed to parse config"
  | .noPasses => "Failed to parse config: solver.max_passes must be at least 1"

end SettingsError

namespace Settings

open Toml (Value)

def default : Settings := ⟨10000, false, "<input>"⟩

instance : Inhabited Settings := ⟨default⟩

/-- The values of a section's keys, each of which may be missing; none if the section is no section
at all. -/
def sectionValues? (keys : List String) : Value → Option (List (Option Value))
  | .table entries => some (keys.map fun k => Toml.get? k entries)
  | .array items => some ((List.range keys.length).map fun i => items[i]?)
  | .dateTime => some (keys.map fun _ => none)
  | _ => none

/-- A value of a key, or what stands for it if it is missing; none if its type is wrong. -/
def field? {α : Type} (read : Value → Option α) (missing : α) : Option Value → Option α
  | some v => read v
  | none => some missing

def natural? : Value → Option Nat
  | .integer n => if 0 ≤ n then some n.toNat else none
  | _ => none

def boolean? : Value → Option Bool
  | .boolean b => some b
  | _ => none

def text? : Value → Option String
  | .string s => some s
  | _ => none

/-- The settings that a table gives. -/
def ofEntries? (entries : List (String × Value)) : Option Settings := do
  let solver ← sectionValues? ["max_passes"] ((Toml.get? "solver" entries).getD (.table []))
  let diagnostics ← sectionValues? ["color", "filename"]
    ((Toml.get? "diagnostics" entries).getD (.table []))
  let maxPasses ← field? natural? default.maxPasses solver[0]?.join
  let color ← field? boolean? default.color diagnostics[0]?.join
  let filename ← field? text? default.filename diagnostics[1]?.join
  return ⟨maxPasses, color, filename⟩

/-- Read settings from a TOML text. -/
def parse (text : String) : Except SettingsError Settings :=
  match (Toml.parse? text).bind ofEntries? with
  | none => .error .malformed
  | some s => if s.maxPasses = 0 then .error .noPasses else .ok s

/-- Read settings from the text of a file, if there is one. -/
def ofFile (content : Option String) : Except SettingsError Settings :=
  match content with
  | none => .error .unreadable
  | some text => parse text

def checkOptions (s : Settings) : CheckOptions := ⟨s.maxPasses⟩

end Settings

end TypeInference
