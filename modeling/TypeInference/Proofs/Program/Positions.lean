import TypeInference.Proofs.Check.Nodes
import TypeInference.Proofs.Program.TopLevel

/-!
# Positions in a program

`Stmt.spans` lists the positions that occur in a statement: those of its nodes, of the names of
callees and of formals, at any depth. Binding stamps nodes and leaves their positions
(`Program.map_spans_bind`).
-/

namespace TypeInference

/-- The positions that nodes carry. -/
def Node.spansAll (ns : List Node) : List Span := ns.flatMap Node.spans

/-- The positions of the nodes of a statement, of its callees' names and of its formals. -/
def Stmt.spans (t : Stmt Span) : List Span := Node.spansAll t.nodes

/-- The positions that the node carries are among `ps`. -/
def Node.Within (ps : List Span) (n : Node) : Prop := ∀ p ∈ n.spans, p ∈ ps

/-- The nodes of a statement carry positions of the statement. -/
theorem Stmt.every_within (owner : Option String) (t : Stmt Span) :
    Stmt.Every (fun _ => Node.Within t.spans) owner t :=
  Stmt.every_of_nodes owner t fun n hn _ hp => List.mem_flatMap.2 ⟨n, hn, hp⟩

/-! ## Binding -/

theorem Node.spansAll_append_congr {ms ms' ns ns' : List Node} (hm : spansAll ms = spansAll ms')
    (hn : spansAll ns = spansAll ns') : spansAll (ms ++ ns) = spansAll (ms' ++ ns') := by
  unfold spansAll at *
  rw [List.flatMap_append, List.flatMap_append, hm, hn]

theorem Expr.pos_bind (owner : Option String) (s : ScopeId) (T : ScopeTree) (e : Expr Span) :
    ((Expr.bind owner s e).run T).1.pos = e.pos := by
  cases e <;> rfl

open Node

mutual

/-- Binding an expression leaves its positions, whatever the tree has come to. -/
theorem Expr.spans_bind : ∀ (owner : Option String) (s : ScopeId) (T : ScopeTree) (e : Expr Span),
    spansAll ((Expr.bind owner s e).run T).1.nodes = spansAll e.nodes
  | _, _, _, .literal .. | _, _, _, .var .. => rfl
  | owner, s, T, .unary _ e p | owner, s, T, .deref e p | owner, s, T, .addressOf e p
  | owner, s, T, .field e _ p _ | owner, s, T, .cast e _ p =>
    congrArg (p :: ·) (Expr.spans_bind owner s T e)
  | owner, s, T, .binary _ l r p | owner, s, T, .comparison _ l r p =>
    congrArg (p :: ·) (spansAll_append_congr (Expr.spans_bind owner s T l)
      (Expr.spans_bind owner s _ r))
  | owner, s, T, .cond c t e p =>
    congrArg (p :: ·) (spansAll_append_congr (Expr.spans_bind owner s T c)
      (spansAll_append_congr (Expr.spans_bind owner s _ t) (Expr.spansOpt_bindOpt owner s _ e)))
  | owner, s, T, .alloc _ e p => congrArg (p :: ·) (Expr.spansOpt_bindOpt owner s T e)
  | owner, _, _, .block b e p _ =>
    congrArg (p :: ·) (spansAll_append_congr (Stmt.spansAll_bindAll owner _ _ b)
      (Expr.spansOpt_bindOpt owner _ _ e))
  | owner, s, T, .call _ q as p _ => congrArg (p :: q :: ·) (Expr.spansAll_bindAll owner s T as)
  | owner, s, T, .callValue c as p _ =>
    congrArg (p :: ·) (spansAll_append_congr (Expr.spans_bind owner s T c)
      (Expr.spansAll_bindAll owner s _ as))
  | owner, s, T, .structInit _ vs p _ => congrArg (p :: ·) (Expr.spansAll_bindAll owner s T vs)

theorem Expr.spansOpt_bindOpt : ∀ (owner : Option String) (s : ScopeId) (T : ScopeTree)
    (e : Option (Expr Span)),
    spansAll (Expr.nodesOpt ((Expr.bindOpt owner s e).run T).1) = spansAll (Expr.nodesOpt e)
  | _, _, _, none => rfl
  | owner, s, T, some e => Expr.spans_bind owner s T e

theorem Expr.spansAll_bindAll : ∀ (owner : Option String) (s : ScopeId) (T : ScopeTree)
    (es : List (Expr Span)),
    spansAll (Expr.nodesAll ((Expr.bindAll owner s es).run T).1) = spansAll (Expr.nodesAll es)
  | _, _, _, [] => rfl
  | owner, s, T, e :: es =>
    spansAll_append_congr (Expr.spans_bind owner s T e) (Expr.spansAll_bindAll owner s _ es)

/-- Binding a statement leaves its positions. -/
theorem Stmt.spans_bind : ∀ (owner : Option String) (s : ScopeId) (T : ScopeTree) (t : Stmt Span),
    ((Stmt.bind owner s t).run T).1.spans = t.spans
  | _, _, _, .typeDecl .. => rfl
  | owner, s, T, .expr e =>
    congrArg₂ List.cons (Expr.pos_bind owner s T e) (Expr.spans_bind owner s T e)
  | owner, s, T, .varDecl _ _ e p _ _ | owner, s, T, .ret e _ p _ | owner, s, T, .yield e p =>
    congrArg (p :: ·) (Expr.spans_bind owner s T e)
  | _, _, _, .funDecl x fs b _ p _ _ =>
    congrArg (p :: fs.map Formal.pos ++ ·) (Expr.spansOpt_bindOpt (some x) _ _ b)
  | owner, s, T, .assign l r p =>
    congrArg (p :: ·) (spansAll_append_congr (Expr.spans_bind owner s T l)
      (Expr.spans_bind owner s _ r))

theorem Stmt.spansAll_bindAll : ∀ (owner : Option String) (s : ScopeId) (T : ScopeTree)
    (ts : List (Stmt Span)),
    spansAll (Stmt.nodesAll ((Stmt.bindAll owner s ts).run T).1) = spansAll (Stmt.nodesAll ts)
  | _, _, _, [] => rfl
  | owner, s, T, t :: ts =>
    spansAll_append_congr (Stmt.spans_bind owner s T t) (Stmt.spansAll_bindAll owner s _ ts)

end

theorem Stmt.map_spans_bindAll (owner : Option String) (s : ScopeId) :
    ∀ (ts : List (Stmt Span)) (T : ScopeTree),
      ((Stmt.bindAll owner s ts).run T).1.map spans = ts.map spans
  | [], _ => rfl
  | t :: ts, T => by
    rw [Stmt.run_bindAll_cons, List.map_cons, List.map_cons, Stmt.spans_bind,
      Stmt.map_spans_bindAll owner s ts]

/-- The positions of each statement of a program are those of the bound statement. -/
theorem Program.map_spans_bind (P : Program Span) :
    P.bind.1.map Stmt.spans = P.map Stmt.spans :=
  Stmt.map_spans_bindAll ..

end TypeInference
