import TypeInference.Ty.Text

/-!
# Type schemes

A scheme quantifies over some of the variables of a type. The scheme of a symbol that is not
generic quantifies over none.
-/

namespace TypeInference

structure Scheme where
  /-- The quantified variables, in the order in which their letters are given out. -/
  vars : List TyVar
  ty : Ty
  deriving DecidableEq, Repr, Inhabited

namespace Scheme

/-- The scheme of `t` with no quantified variable. -/
def mono (t : Ty) : Scheme := ⟨[], t⟩

def isMono (s : Scheme) : Bool := s.vars.isEmpty

/-- The letter of the `i`-th quantified variable: `a` to `z`, then `a1` to `z1`, and so on. -/
def letter (i : Nat) : String :=
  String.singleton (Char.ofNat ('a'.toNat + i % 26)) ++
    (if i / 26 = 0 then "" else toString (i / 26))

/-- A quantified variable is written as its letter, any other as it is outside a scheme. -/
def varText (s : Scheme) (v : TyVar) : String :=
  match s.vars.idxOf? v with
  | some i => letter i
  | none => Ty.varText v

/-- The letters of the quantified variables, each after a blank. -/
def lettersText (s : Scheme) : String :=
  String.join ((List.range s.vars.length).map fun i => " " ++ letter i)

/-- `forall a b. (a) -> b`; a scheme without quantified variables is written as its type. -/
def text (s : Scheme) : String :=
  if s.isMono then s.ty.text else "forall" ++ s.lettersText ++ ". " ++ s.ty.textWith s.varText

end Scheme

end TypeInference
