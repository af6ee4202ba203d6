import TypeInference.Proofs.Check.Nodes
import TypeInference.Proofs.Program.Restamp

/-!
# Nodes that have a type of their own

The table of types is to have an entry for every literal, field access, type declaration and
function with a body, at any depth (`Node.typed?`). Binding changes neither what these nodes are nor
where they are (`Program.typedNodes_bind`).
-/

namespace TypeInference

/-- What a node is that the table of types has an entry for. -/
inductive TypedKind where
  | literal (value : Literal)
  | field
  | typeDecl
  /-- A function with a body and as many formals. -/
  | function (arity : Nat)
  deriving DecidableEq, Repr

structure TypedNode where
  pos : Span
  kind : TypedKind
  deriving DecidableEq, Repr

def Node.typed? : Node → Option TypedNode
  | .expr (.literal v p) => some ⟨p, .literal v⟩
  | .expr (.field _ _ p _) => some ⟨p, .field⟩
  | .stmt (.typeDecl _ _ p _) => some ⟨p, .typeDecl⟩
  | .stmt (.funDecl _ fs (some _) _ p _ _) => some ⟨p, .function fs.length⟩
  | _ => none

/-- The nodes among others that the table of types is to have an entry for. -/
def Node.typed (ns : List Node) : List TypedNode := ns.filterMap Node.typed?

theorem Node.typed_cons_none {n : Node} (h : n.typed? = none) (ns : List Node) :
    Node.typed (n :: ns) = Node.typed ns :=
  List.filterMap_cons_none h

theorem Node.typed_cons_some {n : Node} {m : TypedNode} (h : n.typed? = some m) (ns : List Node) :
    Node.typed (n :: ns) = m :: Node.typed ns :=
  List.filterMap_cons_some h

theorem Node.typed_append (ns ms : List Node) :
    Node.typed (ns ++ ms) = Node.typed ns ++ Node.typed ms :=
  List.filterMap_append

def Program.typedNodes (P : Program Span) : List TypedNode := Node.typed (Stmt.nodesAll P)

/-! ## Other stamps -/

def Node.restamp (φ : Restamping) : Node → Node
  | .expr e => .expr (e.restamp φ)
  | .stmt s => .stmt (s.restamp φ)

theorem Node.typed?_restamp (φ : Restamping) (n : Node) : (n.restamp φ).typed? = n.typed? := by
  cases n with
  | expr e => cases e <;> rfl
  | stmt s =>
    cases s with
    | funDecl x fs b t p s s' => cases b <;> rfl
    | _ => rfl

section
variable (φ : Restamping)

mutual

/-- A node with other stamps has the same parts with other stamps. -/
theorem Expr.nodes_restamp : ∀ e : Expr Span, (e.restamp φ).nodes = e.nodes.map (Node.restamp φ)
  | .literal .. | .var .. => rfl
  | .unary _ e _ | .deref e _ | .addressOf e _ | .field e _ _ _ | .cast e _ _ =>
    congrArg (_ :: ·) (Expr.nodes_restamp e)
  | .binary _ l r _ | .comparison _ l r _ => by
    simp only [Expr.restamp, Expr.nodes, Expr.nodes_restamp l, Expr.nodes_restamp r, List.map_cons,
      List.map_append, Node.restamp]
  | .cond c t e _ => by
    simp only [Expr.restamp, Expr.nodes, Expr.nodes_restamp c, Expr.nodes_restamp t,
      Expr.nodesOpt_restamp e, List.map_cons, List.map_append, Node.restamp]
  | .alloc _ e _ => congrArg (_ :: ·) (Expr.nodesOpt_restamp e)
  | .block b e _ _ => by
    simp only [Expr.restamp, Expr.nodes, Stmt.nodesAll_restamp b, Expr.nodesOpt_restamp e,
      List.map_cons, List.map_append, Node.restamp]
  | .call _ _ as _ _ | .structInit _ as _ _ => congrArg (_ :: ·) (Expr.nodesAll_restamp as)
  | .callValue c as _ _ => by
    simp only [Expr.restamp, Expr.nodes, Expr.nodes_restamp c, Expr.nodesAll_restamp as,
      List.map_cons, List.map_append, Node.restamp]

theorem Expr.nodesOpt_restamp : ∀ e : Option (Expr Span),
    Expr.nodesOpt (Expr.restampOpt φ e) = (Expr.nodesOpt e).map (Node.restamp φ)
  | none => rfl
  | some e => Expr.nodes_restamp e

theorem Expr.nodesAll_restamp : ∀ es : List (Expr Span),
    Expr.nodesAll (Expr.restampAll φ es) = (Expr.nodesAll es).map (Node.restamp φ)
  | [] => rfl
  | e :: es => by
    simp only [Expr.restampAll, Expr.nodesAll, Expr.nodes_restamp e, Expr.nodesAll_restamp es,
      List.map_append]

theorem Stmt.nodes_restamp : ∀ s : Stmt Span, (s.restamp φ).nodes = s.nodes.map (Node.restamp φ)
  | .typeDecl .. => rfl
  | .expr e | .varDecl _ _ e _ _ _ | .ret e _ _ _ | .yield e _ =>
    congrArg (_ :: ·) (Expr.nodes_restamp e)
  | .funDecl _ _ b _ _ _ _ => congrArg (_ :: ·) (Expr.nodesOpt_restamp b)
  | .assign l r _ => by
    simp only [Stmt.restamp, Stmt.nodes, Expr.nodes_restamp l, Expr.nodes_restamp r, List.map_cons,
      List.map_append, Node.restamp]

theorem Stmt.nodesAll_restamp : ∀ ss : List (Stmt Span),
    Stmt.nodesAll (Stmt.restampAll φ ss) = (Stmt.nodesAll ss).map (Node.restamp φ)
  | [] => rfl
  | s :: ss => by
    simp only [Stmt.restampAll, Stmt.nodesAll, Stmt.nodes_restamp s, Stmt.nodesAll_restamp ss,
      List.map_append]

end

theorem Program.typedNodes_restamp (P : Program Span) :
    Program.typedNodes (Stmt.restampAll φ P) = P.typedNodes := by
  simp only [typedNodes, Node.typed, Stmt.nodesAll_restamp, List.filterMap_map, Function.comp_def,
    Node.typed?_restamp]

end

/-- Binding leaves the nodes that have a type as they are. -/
theorem Program.typedNodes_bind (P : Program Span) : P.bind.1.typedNodes = P.typedNodes := by
  have hnamed : Stmt.restampAll .named P.bind.1 = Stmt.restampAll .named P :=
    Stmt.restampAll_bindAll none ScopeTree.rootScope P
  rw [← typedNodes_restamp .named, hnamed, typedNodes_restamp]

end TypeInference
