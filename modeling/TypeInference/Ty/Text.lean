import TypeInference.Ty.Basic

/-!
# The written form of a type

A pointer is written `*t`, a function `(t, u) -> r`, a declared struct by its name and any other
struct by its fields. How a variable is written is left to the caller: alone it is `?3`, under a
scheme it is a letter.
-/

namespace TypeInference.Ty

mutual

/-- The written form of a type whose variables are written by `name`. -/
def textWith (name : TyVar → String) : Ty → String
  | .var v => name v
  | .con n => n
  | .ptr t => "*" ++ textWith name t
  | .fn ps r => "(" ++ textParams name "" ps ++ ") -> " ++ textWith name r
  | .struct (some n) _ => n
  | .struct none fs => "struct ".push '{' ++ textFields name " " fs ++ " ".push '}'

/-- The parameters, the first one after `sep` and the others after a comma. -/
def textParams (name : TyVar → String) (sep : String) : List Ty → String
  | [] => ""
  | t :: ts => sep ++ textWith name t ++ textParams name ", " ts

/-- The fields, the first one after `sep` and the others after a comma. -/
def textFields (name : TyVar → String) (sep : String) : List (String × Ty) → String
  | [] => ""
  | (n, t) :: fs => sep ++ n ++ ": " ++ textWith name t ++ textFields name ", " fs

end

/-- A variable on its own, `?3`. -/
def varText (v : TyVar) : String := "?" ++ toString v

def text (t : Ty) : String := t.textWith varText

end TypeInference.Ty
