/-!
# TOML values

The values that a TOML text can hold. Floats and dates are told apart from the other types and from
each other, and are otherwise opaque.
-/

namespace TypeInference.Toml

inductive Value where
  | string (s : String)
  | integer (n : Int)
  | float
  | boolean (b : Bool)
  | dateTime
  | array (items : List Value)
  | table (entries : List (String × Value))
  deriving Repr, Inhabited

/-- The value under a key. -/
def get? (key : String) (entries : List (String × Value)) : Option Value :=
  (entries.find? fun e => e.1 == key).map Prod.snd

end TypeInference.Toml
