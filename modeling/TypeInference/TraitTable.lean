import TypeInference.Ty.Basic

/-!
# Which types have which trait

A `TraitTable` lists the constructors that can be compared and ordered, and the casts between
constructors. Pointers can always be compared, and can be cast to each other.
-/

namespace TypeInference

structure TraitTable where
  eq : List String
  ord : List String
  /-- Source and target of each cast between two constructors. -/
  conversions : List (String × String)
  deriving DecidableEq, Repr

namespace TraitTable

/-- The table that every program is checked against. -/
def builtin : TraitTable where
  eq := ["int", "bool", "char", "unit"]
  ord := ["int", "char"]
  conversions := [("int", "char"), ("char", "int"), ("bool", "int")]

instance : Inhabited TraitTable := ⟨builtin⟩

def registerEq (C : TraitTable) (name : String) : TraitTable := { C with eq := name :: C.eq }

def registerOrd (C : TraitTable) (name : String) : TraitTable := { C with ord := name :: C.ord }

def registerConversion (C : TraitTable) (source target : String) : TraitTable :=
  { C with conversions := (source, target) :: C.conversions }

/-- Whether values of the type can be compared for equality. -/
def satisfiesEq (C : TraitTable) : Ty → Bool
  | .con n => C.eq.contains n
  | .ptr _ => true
  | _ => false

/-- Whether values of the type can be ordered. -/
def satisfiesOrd (C : TraitTable) : Ty → Bool
  | .con n => C.ord.contains n
  | _ => false

/-- Whether a value of a type can be cast to another, by their outermost forms alone. A struct
converts to any type that goes by its name. -/
def convertsHead (C : TraitTable) : Ty → Ty → Bool
  | .ptr _, .ptr _ => true
  | .struct (some m) _, .struct (some n) _ => m == n
  | .struct (some m) _, .con n => m == n
  | .con m, .struct (some n) _ => m == n
  | .con m, .con n => C.conversions.contains (m, n)
  | _, _ => false

/-- Whether a value of type `s` can be cast to type `t`; both are resolved. -/
def converts (C : TraitTable) (s t : Ty) : Bool := s == t || C.convertsHead s t

@[simp] theorem converts_self (C : TraitTable) (t : Ty) : C.converts t t := by simp [converts]

end TraitTable

end TypeInference
