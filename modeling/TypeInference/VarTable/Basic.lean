import TypeInference.Fault
import TypeInference.Ty.Basic

/-!
# The table of type variables

Variables fall into classes that stand for one type each. A class is a tree of links with its root
on top; the root holds the rank of the tree and, once the class is bound, the type it stands for.

Variables are numbered from zero as they are minted (`mint`). Which variable is the root of a class
can be read off every printed type, so `unite` fixes it: the root of the lower rank goes under the
other, and of two roots of equal rank the first goes under the second, whose rank grows by one.
-/

namespace TypeInference

/-- What the table holds for one variable. -/
inductive Cell where
  /-- A link towards the root of the class. -/
  | link (parent : TyVar)
  /-- The root of a class, with the type that the class is bound to, if any. -/
  | root (rank : Nat) (value : Option Ty)
  deriving DecidableEq, Repr, Inhabited

structure VarTable where
  cells : Array Cell
  deriving DecidableEq, Repr, Inhabited

namespace VarTable

/-- The table without variables. -/
def empty : VarTable := ⟨#[]⟩

instance : EmptyCollection VarTable := ⟨empty⟩

/-- The number of variables minted so far. -/
def size (T : VarTable) : Nat := T.cells.size

/-! ## Classes -/

/-- The variable reached from `v` after at most `fuel` links. -/
def follow (T : VarTable) : Nat → TyVar → TyVar
  | 0, v => v
  | fuel + 1, v =>
    match T.cells[v]? with
    | some (.link p) => T.follow fuel p
    | _ => v

/-- The root of the class of `v`. Links form no cycle, so a chain of them is shorter than the
table. -/
def root (T : VarTable) (v : TyVar) : TyVar := T.follow T.size v

/-- The rank of the class of `v`. -/
def rank (T : VarTable) (v : TyVar) : Nat :=
  match T.cells[T.root v]? with
  | some (.root r _) => r
  | _ => 0

/-- The type that the class of `v` is bound to. -/
def value? (T : VarTable) (v : TyVar) : Option Ty :=
  match T.cells[T.root v]? with
  | some (.root _ t) => t
  | _ => none

/-- Refuse a variable that was never minted. -/
def requireVar (T : VarTable) (v : TyVar) : Except Fault Unit := Fault.requireIndex T.size v

/-- Refuse the first variable of a list that was never minted. -/
def requireVars (T : VarTable) (vs : List TyVar) : Except Fault Unit := vs.forM T.requireVar

/-! ## Growth -/

/-- A new variable, alone in its class and unbound. -/
def mint (T : VarTable) : TyVar × VarTable := (T.size, ⟨T.cells.push (.root 0 none)⟩)

/-- Bind the class of `v` to `t`; root and rank stay. -/
def assign (T : VarTable) (v : TyVar) (t : Ty) : VarTable :=
  ⟨T.cells.setIfInBounds (T.root v) (.root (T.rank v) (some t))⟩

/-- Hang root `r` under root `s`, which takes the given rank and value. -/
def hang (T : VarTable) (r s : TyVar) (rank : Nat) (value : Option Ty) : VarTable :=
  ⟨(T.cells.setIfInBounds r (.link s)).setIfInBounds s (.root rank value)⟩

/-- Merge the classes of `v` and `w`. A binding of either is kept. -/
def unite (T : VarTable) (v w : TyVar) : VarTable :=
  let r := T.root v
  let s := T.root w
  let value := (T.value? v).or (T.value? w)
  if r = s then T
  else if T.rank w < T.rank v then T.hang s r (T.rank v) value
  else if T.rank v < T.rank w then T.hang r s (T.rank w) value
  else T.hang r s (T.rank w + 1) value

/-! ## Sizes -/

@[simp] theorem size_empty : size ∅ = 0 := rfl

@[simp] theorem size_mint (T : VarTable) : T.mint.2.size = T.size + 1 := by simp [mint, size]

@[simp] theorem size_assign (T : VarTable) (v : TyVar) (t : Ty) :
    (T.assign v t).size = T.size := by
  simp [assign, size]

@[simp] theorem size_hang (T : VarTable) (r s : TyVar) (rank : Nat) (value : Option Ty) :
    (T.hang r s rank value).size = T.size := by
  simp [hang, size]

@[simp] theorem size_unite (T : VarTable) (v w : TyVar) : (T.unite v w).size = T.size := by
  unfold unite
  dsimp only
  split
  · rfl
  · split
    · simp
    · split <;> simp

theorem requireVar_eq_ok {T : VarTable} {v : TyVar} : T.requireVar v = .ok () ↔ v < T.size :=
  Fault.requireIndex_eq_ok

/-! ## Depth -/

/-- No path into a type, followed through the bindings of the table, is longer: on an acyclic table
it passes each binding at most once. -/
def depthBound (T : VarTable) (types : List Ty) : Nat :=
  let values := T.cells.toList.filterMap fun
    | .root _ t => t
    | .link _ => none
  (T.size + 1) * (((types ++ values).map Ty.height).foldl max 0 + 1) + 1

end VarTable

end TypeInference
