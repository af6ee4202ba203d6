/-!
# Types

`Ty` is the language of types: inference variables, nullary constructors, pointers, functions and
structs. A constructor whose name is no builtin stands for the struct declared under that name.

Everything that looks at the variables of a type goes through two functions: `Ty.bind`, which
replaces every variable by a type, and `Ty.occurrences`, which lists them in reading order.
`Ty.ind` is induction over a type together with its lists of parameters and fields.
-/

namespace TypeInference

/-- A type variable, an index into the table of variables. -/
abbrev TyVar := Nat

inductive Ty where
  | var (v : TyVar)
  /-- A builtin scalar, or the name of a declared struct. -/
  | con (name : String)
  | ptr (inner : Ty)
  | fn (params : List Ty) (result : Ty)
  /-- A layout of named fields in order, with the name it was declared under, if any. -/
  | struct (name : Option String) (fields : List (String × Ty))
  deriving Repr, Inhabited

namespace Ty

def int : Ty := .con "int"
def bool : Ty := .con "bool"
def char : Ty := .con "char"
def unit : Ty := .con "unit"

/-- The type of text literals. -/
def string : Ty := .ptr char

/-- The constructors that name no struct. -/
def builtinNames : List String := ["int", "bool", "char", "unit"]

def isBuiltinName (name : String) : Bool := builtinNames.contains name

/-- The type of the first field called `name`. -/
def fieldType? (name : String) (fields : List (String × Ty)) : Option Ty :=
  (fields.find? fun f => f.1 == name).map Prod.snd

/-! ## Replacing variables -/

mutual

/-- Put `f v` in the place of every variable `v`. -/
def bind (f : TyVar → Ty) : Ty → Ty
  | .var v => f v
  | .con n => .con n
  | .ptr t => .ptr (bind f t)
  | .fn ps r => .fn (bindAll f ps) (bind f r)
  | .struct n fs => .struct n (bindFields f fs)

def bindAll (f : TyVar → Ty) : List Ty → List Ty
  | [] => []
  | t :: ts => bind f t :: bindAll f ts

def bindFields (f : TyVar → Ty) : List (String × Ty) → List (String × Ty)
  | [] => []
  | (n, t) :: fs => (n, bind f t) :: bindFields f fs

end

/-! ## Listing variables -/

mutual

/-- The variables of a type in reading order, with repetitions. -/
def occurrences : Ty → List TyVar
  | .var v => [v]
  | .con _ => []
  | .ptr t => occurrences t
  | .fn ps r => occurrencesAll ps ++ occurrences r
  | .struct _ fs => occurrencesFields fs

def occurrencesAll : List Ty → List TyVar
  | [] => []
  | t :: ts => occurrences t ++ occurrencesAll ts

def occurrencesFields : List (String × Ty) → List TyVar
  | [] => []
  | (_, t) :: fs => occurrences t ++ occurrencesFields fs

end

/-- The variables of a type, each once, in order of first occurrence. -/
def vars (t : Ty) : List TyVar := t.occurrences.eraseDups

/-- Whether `v` is written in `t`; no binding is followed. -/
def mentions (t : Ty) (v : TyVar) : Bool := t.occurrences.contains v

/-! ## Height -/

mutual

/-- The number of constructors on the longest path into a type. -/
def height : Ty → Nat
  | .var _ => 0
  | .con _ => 0
  | .ptr t => height t + 1
  | .fn ps r => max (heightAll ps) (height r) + 1
  | .struct _ fs => heightFields fs + 1

def heightAll : List Ty → Nat
  | [] => 0
  | t :: ts => max (height t) (heightAll ts)

def heightFields : List (String × Ty) → Nat
  | [] => 0
  | (_, t) :: fs => max (height t) (heightFields fs)

end

/-! ## Decidable equality -/

mutual

def decEq : (s t : Ty) → Decidable (s = t)
  | .var v, .var w => decidable_of_iff (v = w) (by simp)
  | .con m, .con n => decidable_of_iff (m = n) (by simp)
  | .ptr s, .ptr t =>
    match decEq s t with
    | isTrue h => isTrue (h ▸ rfl)
    | isFalse h => isFalse fun e => h (Ty.ptr.inj e)
  | .fn ps r, .fn qs s =>
    match decEqAll ps qs, decEq r s with
    | isTrue h, isTrue h' => isTrue (h ▸ h' ▸ rfl)
    | isFalse h, _ => isFalse fun e => h (Ty.fn.inj e).1
    | _, isFalse h => isFalse fun e => h (Ty.fn.inj e).2
  | .struct m fs, .struct n gs =>
    match decEqFields fs gs with
    | isTrue h => decidable_of_iff (m = n) (by simp [h])
    | isFalse h => isFalse fun e => h (Ty.struct.inj e).2
  | .var _, .con _ | .var _, .ptr _ | .var _, .fn .. | .var _, .struct .. => isFalse nofun
  | .con _, .var _ | .con _, .ptr _ | .con _, .fn .. | .con _, .struct .. => isFalse nofun
  | .ptr _, .var _ | .ptr _, .con _ | .ptr _, .fn .. | .ptr _, .struct .. => isFalse nofun
  | .fn .., .var _ | .fn .., .con _ | .fn .., .ptr _ | .fn .., .struct .. => isFalse nofun
  | .struct .., .var _ | .struct .., .con _ | .struct .., .ptr _ | .struct .., .fn .. =>
    isFalse nofun

def decEqAll : (ss ts : List Ty) → Decidable (ss = ts)
  | [], [] => isTrue rfl
  | [], _ :: _ | _ :: _, [] => isFalse nofun
  | s :: ss, t :: ts =>
    match decEq s t, decEqAll ss ts with
    | isTrue h, isTrue h' => isTrue (h ▸ h' ▸ rfl)
    | isFalse h, _ => isFalse fun e => h (List.cons.inj e).1
    | _, isFalse h => isFalse fun e => h (List.cons.inj e).2

def decEqFields : (fs gs : List (String × Ty)) → Decidable (fs = gs)
  | [], [] => isTrue rfl
  | [], _ :: _ | _ :: _, [] => isFalse nofun
  | (m, s) :: fs, (n, t) :: gs =>
    match decEq s t, decEqFields fs gs with
    | isTrue h, isTrue h' => decidable_of_iff (m = n) (by simp [h, h'])
    | isFalse h, _ => isFalse fun e => h (Prod.mk.inj (List.cons.inj e).1).2
    | _, isFalse h => isFalse fun e => h (List.cons.inj e).2

end

instance : DecidableEq Ty := decEq

/-! ## Induction -/

/-- Induction on a type; for parameters and fields the hypothesis speaks of the members. -/
@[induction_eliminator]
theorem ind {motive : Ty → Prop} (var : ∀ v, motive (.var v)) (con : ∀ n, motive (.con n))
    (ptr : ∀ t, motive t → motive (.ptr t))
    (fn : ∀ ps r, (∀ p ∈ ps, motive p) → motive r → motive (.fn ps r))
    (struct : ∀ n fs, (∀ f ∈ fs, motive f.2) → motive (.struct n fs)) (t : Ty) : motive t :=
  @Ty.rec motive (fun ts => ∀ t ∈ ts, motive t) (fun fs => ∀ f ∈ fs, motive f.2)
    (fun f => motive f.2) var con ptr fn struct
    (by simp) (fun _ _ ht hts => List.forall_mem_cons.2 ⟨ht, hts⟩)
    (by simp) (fun _ _ hf hfs => List.forall_mem_cons.2 ⟨hf, hfs⟩)
    (fun _ _ ht => ht) t

end Ty

end TypeInference
