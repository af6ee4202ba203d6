import Mathlib.Logic.Basic
import TypeInference.Program.Binding
import TypeInference.Program.Stamps

/-!
# Stamps are outputs of binding

`restamp φ` writes other stamps into every node of a piece of syntax; `Restamping.blank` takes them
all back to what they are before binding. `bind_restamp`: binding does not read a stamp, so syntax
that differs in stamps only is bound alike. `restamp_bind`: binding changes nothing but stamps and
the names of struct bodies, and it names a body as a second binding would. So a bound program is
bound to itself (`Program.bind_stable`). A program as a whole stands in the root scope and has no
stamp of its own.
-/

namespace TypeInference

/-! ## Other stamps -/

/-- What to write in place of each stamp, and in place of the body of a type declaration. -/
structure Restamping where
  scope : ScopeId → ScopeId
  /-- The scope of a `return`. -/
  returnScope : ScopeId → ScopeId
  symbol : Option SymbolId → Option SymbolId
  function : Option String → Option String
  /-- The body declared under a name. -/
  body : String → Ty → Ty

namespace Restamping

/-- The stamps of a program that was never bound. -/
def blank : Restamping where
  scope _ := ScopeTree.rootScope
  returnScope _ := ScopeTree.rootScope
  symbol _ := none
  function _ := none
  body _ t := t

/-- Blank stamps, and every struct body under the name that it is declared by. -/
def named : Restamping := { blank with body := Ty.declaredAs }

/-- A body is still declared as it was. -/
def KeepsBodies (φ : Restamping) : Prop :=
  ∀ name t, (φ.body name t).declaredAs name = t.declaredAs name

end Restamping

mutual

def Expr.restamp (φ : Restamping) : Expr Span → Expr Span
  | .literal v p => .literal v p
  | .var x p s y => .var x p (φ.scope s) (φ.symbol y)
  | .unary op e p => .unary op (e.restamp φ) p
  | .binary op l r p => .binary op (l.restamp φ) (r.restamp φ) p
  | .comparison op l r p => .comparison op (l.restamp φ) (r.restamp φ) p
  | .cond c t e p => .cond (c.restamp φ) (t.restamp φ) (Expr.restampOpt φ e) p
  | .deref e p => .deref (e.restamp φ) p
  | .addressOf e p => .addressOf (e.restamp φ) p
  | .alloc t e p => .alloc t (Expr.restampOpt φ e) p
  | .block b e p s => .block (Stmt.restampAll φ b) (Expr.restampOpt φ e) p (φ.scope s)
  | .call x q as p s => .call x q (Expr.restampAll φ as) p (φ.scope s)
  | .callValue c as p s => .callValue (c.restamp φ) (Expr.restampAll φ as) p (φ.scope s)
  | .structInit x vs p s => .structInit x (Expr.restampAll φ vs) p (φ.scope s)
  | .field e x p s => .field (e.restamp φ) x p (φ.scope s)
  | .cast e t p => .cast (e.restamp φ) t p

def Expr.restampOpt (φ : Restamping) : Option (Expr Span) → Option (Expr Span)
  | none => none
  | some e => some (e.restamp φ)

def Expr.restampAll (φ : Restamping) : List (Expr Span) → List (Expr Span)
  | [] => []
  | e :: es => e.restamp φ :: Expr.restampAll φ es

def Stmt.restamp (φ : Restamping) : Stmt Span → Stmt Span
  | .expr e => .expr (e.restamp φ)
  | .typeDecl x t p s => .typeDecl x (φ.body x t) p (φ.scope s)
  | .varDecl x t e p s y => .varDecl x t (e.restamp φ) p (φ.scope s) (φ.symbol y)
  | .funDecl x fs b t p s s' =>
    .funDecl x fs (Expr.restampOpt φ b) t p (φ.scope s) (φ.scope s')
  | .ret e f p s => .ret (e.restamp φ) (φ.function f) p (φ.returnScope s)
  | .yield e p => .yield (e.restamp φ) p
  | .assign l r p => .assign (l.restamp φ) (r.restamp φ) p

def Stmt.restampAll (φ : Restamping) : List (Stmt Span) → List (Stmt Span)
  | [] => []
  | s :: ss => s.restamp φ :: Stmt.restampAll φ ss

end

/-- A program with the stamps of one that was never bound. -/
def Program.unstamped (P : Program Span) : Program Span := Stmt.restampAll .blank P

/-! ## Binding reads no stamp -/

theorem Ty.declaredAs_declaredAs (name : String) (t : Ty) :
    (t.declaredAs name).declaredAs name = t.declaredAs name := by
  match t with
  | .struct none _ | .struct (some _) _ | .var _ | .con _ | .fn .. | .ptr _ => rfl

namespace Restamping

theorem keepsBodies_blank : blank.KeepsBodies := fun _ _ => rfl

theorem keepsBodies_named : named.KeepsBodies := Ty.declaredAs_declaredAs

end Restamping

section
variable {φ : Restamping}

theorem ScopeTree.hoist_restamp (hφ : φ.KeepsBodies) (scope : ScopeId) (T : ScopeTree)
    (s : Stmt Span) : T.hoist scope (s.restamp φ) = T.hoist scope s := by
  cases s with
  | typeDecl x t p s =>
    exact congrArg (fun t => (T.declare scope ⟨x, .type, p, some (Scheme.mono t)⟩).2) (hφ x t)
  | _ => rfl

theorem ScopeTree.hoistAll_restamp (hφ : φ.KeepsBodies) (scope : ScopeId) (ss : List (Stmt Span))
    (T : ScopeTree) : T.hoistAll scope (Stmt.restampAll φ ss) = T.hoistAll scope ss := by
  induction ss generalizing T with
  | nil => rfl
  | cons s ss ih =>
    simp only [ScopeTree.hoistAll, Stmt.restampAll, List.foldl_cons] at ih ⊢
    rw [hoist_restamp hφ, ih]

mutual

theorem Expr.bind_restamp (hφ : φ.KeepsBodies) (owner : Option String) (scope : ScopeId) :
    ∀ e : Expr Span, Expr.bind owner scope (e.restamp φ) = Expr.bind owner scope e
  | .literal .. | .var .. => rfl
  | .unary _ e _ | .deref e _ | .addressOf e _ | .field e _ _ _ | .cast e _ _ => by
    simp only [Expr.restamp, Expr.bind, Expr.bind_restamp hφ owner scope e]
  | .binary _ l r _ | .comparison _ l r _ => by
    simp only [Expr.restamp, Expr.bind, Expr.bind_restamp hφ owner scope l,
      Expr.bind_restamp hφ owner scope r]
  | .cond c t e _ => by
    simp only [Expr.restamp, Expr.bind, Expr.bind_restamp hφ owner scope c,
      Expr.bind_restamp hφ owner scope t, Expr.bindOpt_restamp hφ owner scope e]
  | .alloc _ e _ => by simp only [Expr.restamp, Expr.bind, Expr.bindOpt_restamp hφ owner scope e]
  | .block b e _ _ => by
    have hb (inner : ScopeId) :
        ScopeTree.hoistAll inner (Stmt.restampAll φ b) = ScopeTree.hoistAll inner b :=
      funext (ScopeTree.hoistAll_restamp hφ inner b)
    simp only [Expr.restamp, Expr.bind, hb, Stmt.bindAll_restamp hφ owner _ b,
      Expr.bindOpt_restamp hφ owner _ e]
  | .call _ _ as _ _ | .structInit _ as _ _ => by
    simp only [Expr.restamp, Expr.bind, Expr.bindAll_restamp hφ owner scope as]
  | .callValue c as _ _ => by
    simp only [Expr.restamp, Expr.bind, Expr.bind_restamp hφ owner scope c,
      Expr.bindAll_restamp hφ owner scope as]

theorem Expr.bindOpt_restamp (hφ : φ.KeepsBodies) (owner : Option String) (scope : ScopeId) :
    ∀ e, Expr.bindOpt owner scope (Expr.restampOpt φ e) = Expr.bindOpt owner scope e
  | none => rfl
  | some e => by simp only [Expr.restampOpt, Expr.bindOpt, Expr.bind_restamp hφ owner scope e]

theorem Expr.bindAll_restamp (hφ : φ.KeepsBodies) (owner : Option String) (scope : ScopeId) :
    ∀ es, Expr.bindAll owner scope (Expr.restampAll φ es) = Expr.bindAll owner scope es
  | [] => rfl
  | e :: es => by
    simp only [Expr.restampAll, Expr.bindAll, Expr.bind_restamp hφ owner scope e,
      Expr.bindAll_restamp hφ owner scope es]

theorem Stmt.bind_restamp (hφ : φ.KeepsBodies) (owner : Option String) (scope : ScopeId) :
    ∀ s : Stmt Span, Stmt.bind owner scope (s.restamp φ) = Stmt.bind owner scope s
  | .typeDecl x t _ _ => by simp only [Stmt.restamp, Stmt.bind, hφ x t]
  | .expr e | .varDecl _ _ e _ _ _ | .ret e _ _ _ | .yield e _ => by
    simp only [Stmt.restamp, Stmt.bind, Expr.bind_restamp hφ owner scope e]
  | .funDecl x _ b _ _ _ _ => by
    simp only [Stmt.restamp, Stmt.bind, Expr.bindOpt_restamp hφ (some x) _ b]
  | .assign l r _ => by
    simp only [Stmt.restamp, Stmt.bind, Expr.bind_restamp hφ owner scope l,
      Expr.bind_restamp hφ owner scope r]

theorem Stmt.bindAll_restamp (hφ : φ.KeepsBodies) (owner : Option String) (scope : ScopeId) :
    ∀ ss, Stmt.bindAll owner scope (Stmt.restampAll φ ss) = Stmt.bindAll owner scope ss
  | [] => rfl
  | s :: ss => by
    simp only [Stmt.restampAll, Stmt.bindAll, Stmt.bind_restamp hφ owner scope s,
      Stmt.bindAll_restamp hφ owner scope ss]

end

/-- Binding reads no stamp. -/
theorem Program.bind_restampAll (hφ : φ.KeepsBodies) (P : Program Span) :
    Program.bind (Stmt.restampAll φ P) = P.bind := by
  simp only [Program.bind, Stmt.bindAll_restamp hφ, ScopeTree.hoistAll_restamp hφ]

end

/-! ## Binding writes nothing else -/

mutual

theorem Expr.restamp_bind (owner : Option String) (scope : ScopeId) :
    ∀ (e : Expr Span) (T : ScopeTree),
      ((Expr.bind owner scope e).run T).1.restamp .named = e.restamp .named
  | .literal .., _ | .var .., _ => rfl
  | .unary op e p, T => congrArg (Expr.unary op · p) (Expr.restamp_bind owner scope e T)
  | .deref e p, T => congrArg (Expr.deref · p) (Expr.restamp_bind owner scope e T)
  | .addressOf e p, T => congrArg (Expr.addressOf · p) (Expr.restamp_bind owner scope e T)
  | .field e x p _, T => congrArg (Expr.field · x p _) (Expr.restamp_bind owner scope e T)
  | .cast e t p, T => congrArg (Expr.cast · t p) (Expr.restamp_bind owner scope e T)
  | .binary op l r p, T =>
    congrArg₂ (Expr.binary op · · p) (Expr.restamp_bind owner scope l T)
      (Expr.restamp_bind owner scope r _)
  | .comparison op l r p, T =>
    congrArg₂ (Expr.comparison op · · p) (Expr.restamp_bind owner scope l T)
      (Expr.restamp_bind owner scope r _)
  | .cond c t e p, T =>
    (congrArg₂ (Expr.cond · · _ p) (Expr.restamp_bind owner scope c T)
      (Expr.restamp_bind owner scope t _)).trans
      (congrArg (Expr.cond _ _ · p) (Expr.restampOpt_bindOpt owner scope e _))
  | .alloc t e p, T => congrArg (Expr.alloc t · p) (Expr.restampOpt_bindOpt owner scope e T)
  | .block b e p _, _ =>
    congrArg₂ (Expr.block · · p _) (Stmt.restampAll_bindAll owner _ b)
      (Expr.restampOpt_bindOpt owner _ e _)
  | .call x q as p _, T =>
    congrArg (Expr.call x q · p _) (Expr.restampAll_bindAll owner scope as T)
  | .callValue c as p _, T =>
    congrArg₂ (Expr.callValue · · p _) (Expr.restamp_bind owner scope c T)
      (Expr.restampAll_bindAll owner scope as _)
  | .structInit x vs p _, T =>
    congrArg (Expr.structInit x · p _) (Expr.restampAll_bindAll owner scope vs T)

theorem Expr.restampOpt_bindOpt (owner : Option String) (scope : ScopeId) :
    ∀ (e : Option (Expr Span)) (T : ScopeTree),
      Expr.restampOpt .named ((Expr.bindOpt owner scope e).run T).1 = Expr.restampOpt .named e
  | none, _ => rfl
  | some e, T => congrArg some (Expr.restamp_bind owner scope e T)

theorem Expr.restampAll_bindAll (owner : Option String) (scope : ScopeId) :
    ∀ (es : List (Expr Span)) (T : ScopeTree),
      Expr.restampAll .named ((Expr.bindAll owner scope es).run T).1 = Expr.restampAll .named es
  | [], _ => rfl
  | e :: es, T =>
    congrArg₂ List.cons (Expr.restamp_bind owner scope e T)
      (Expr.restampAll_bindAll owner scope es _)

theorem Stmt.restamp_bind (owner : Option String) (scope : ScopeId) :
    ∀ (s : Stmt Span) (T : ScopeTree),
      ((Stmt.bind owner scope s).run T).1.restamp .named = s.restamp .named
  | .expr e, T => congrArg Stmt.expr (Expr.restamp_bind owner scope e T)
  | .typeDecl x t p _, _ => congrArg (Stmt.typeDecl x · p _) (Ty.declaredAs_declaredAs x t)
  | .varDecl x t e p _ _, T =>
    congrArg (Stmt.varDecl x t · p _ _) (Expr.restamp_bind owner scope e T)
  | .funDecl x fs b t p _ _, _ =>
    congrArg (Stmt.funDecl x fs · t p _ _) (Expr.restampOpt_bindOpt (some x) _ b _)
  | .ret e _ p _, T => congrArg (Stmt.ret · _ p _) (Expr.restamp_bind owner scope e T)
  | .yield e p, T => congrArg (Stmt.yield · p) (Expr.restamp_bind owner scope e T)
  | .assign l r p, T =>
    congrArg₂ (Stmt.assign · · p) (Expr.restamp_bind owner scope l T)
      (Expr.restamp_bind owner scope r _)

theorem Stmt.restampAll_bindAll (owner : Option String) (scope : ScopeId) :
    ∀ {T : ScopeTree} (ss : List (Stmt Span)),
      Stmt.restampAll .named ((Stmt.bindAll owner scope ss).run T).1 = Stmt.restampAll .named ss
  | _, [] => rfl
  | T, s :: ss =>
    congrArg₂ List.cons (Stmt.restamp_bind owner scope s T)
      (Stmt.restampAll_bindAll owner scope ss)

end

/-! ## Binding again -/

/-- Programs that differ in stamps only are bound to the same program and the same tree, and a
program that is bound already is bound to itself and to its tree. -/
theorem Program.bind_stable (P : Program Span) :
    (∀ Q : Program Span, Q.unstamped = P.unstamped → Q.bind = P.bind) ∧
      P.bind.1.bind = P.bind := by
  constructor
  · intro Q h
    calc Q.bind = Q.unstamped.bind := (Q.bind_restampAll Restamping.keepsBodies_blank).symm
      _ = P.unstamped.bind := by rw [h]
      _ = P.bind := P.bind_restampAll Restamping.keepsBodies_blank
  · have hnamed : Stmt.restampAll .named P.bind.1 = Stmt.restampAll .named P :=
      Stmt.restampAll_bindAll none ScopeTree.rootScope P
    calc P.bind.1.bind = Program.bind (Stmt.restampAll .named P.bind.1) :=
          (P.bind.1.bind_restampAll Restamping.keepsBodies_named).symm
      _ = Program.bind (Stmt.restampAll .named P) := by rw [hnamed]
      _ = P.bind := P.bind_restampAll Restamping.keepsBodies_named

/-- `type P = struct { x: int }; fun f(n) { let r = n; return r }; f(1)` -/
def restampSample : Program Span := [
  .typeDecl "P" (.struct none [("x", .int)]) ⟨0, 1⟩ 0,
  .funDecl "f" [⟨"n", ⟨1, 2⟩⟩] (some (.block
    [.varDecl "r" none (.var "n" ⟨2, 3⟩ 0 none) ⟨3, 4⟩ 0 none,
      .ret (.var "r" ⟨4, 5⟩ 0 none) none ⟨5, 6⟩ 0] none ⟨6, 7⟩ 0)) none ⟨7, 8⟩ 0 0,
  .expr (.call "f" ⟨8, 9⟩ [.literal (.int 1) ⟨9, 10⟩] ⟨10, 11⟩ 0)]

/-- Stamps of another program, out of range and under the wrong function. -/
def staleSample : Program Span :=
  Stmt.restampAll ⟨fun _ => 9, fun _ => 8, fun _ => some 7, fun _ => some "g", fun _ t => t⟩
    restampSample

theorem bind_stable_staleSample :
    staleSample.unstamped = restampSample.unstamped ∧ staleSample.stamps ≠ restampSample.stamps ∧
      staleSample.bind = restampSample.bind :=
  ⟨rfl, by decide, restampSample.bind_stable.1 staleSample rfl⟩

end TypeInference
