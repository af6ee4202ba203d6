import TypeInference.Program.Basic

/-!
# Conditions on every node of a program

`Every ok owner` says of a piece of syntax that `ok` holds of all its nodes. The condition is given,
with a node, the name of the innermost function that the node stands in; `owner` is that of the
whole piece. `nodes` lists the nodes of a piece; a condition on the members of the list alone holds
of every node (`Stmt.every_of_nodes`).
-/

namespace TypeInference

/-- A node of a program. -/
inductive Node where
  | expr (e : Expr Span)
  | stmt (s : Stmt Span)

/-- The positions that the node itself carries: its own, that of a callee's name, those of formals.
-/
def Node.spans : Node → List Span
  | .expr (.call _ namePos _ pos _) => [pos, namePos]
  | .expr e => [e.pos]
  | .stmt (.funDecl _ formals _ _ pos _ _) => pos :: formals.map Formal.pos
  | .stmt s => [s.pos]

theorem Node.pos_mem_spans (e : Expr Span) : e.pos ∈ (Node.expr e).spans := by
  cases e <;> simp [Node.spans, Expr.pos]

mutual

def Expr.Every (ok : Option String → Node → Prop) (owner : Option String) : Expr Span → Prop
  | .literal v p => ok owner (.expr (.literal v p))
  | .var x p s y => ok owner (.expr (.var x p s y))
  | .unary op e p => ok owner (.expr (.unary op e p)) ∧ Expr.Every ok owner e
  | .binary op l r p =>
    ok owner (.expr (.binary op l r p)) ∧ Expr.Every ok owner l ∧ Expr.Every ok owner r
  | .comparison op l r p =>
    ok owner (.expr (.comparison op l r p)) ∧ Expr.Every ok owner l ∧ Expr.Every ok owner r
  | .cond c t e p =>
    ok owner (.expr (.cond c t e p)) ∧ Expr.Every ok owner c ∧ Expr.Every ok owner t ∧
      Expr.EveryOpt ok owner e
  | .deref e p => ok owner (.expr (.deref e p)) ∧ Expr.Every ok owner e
  | .addressOf e p => ok owner (.expr (.addressOf e p)) ∧ Expr.Every ok owner e
  | .alloc t e p => ok owner (.expr (.alloc t e p)) ∧ Expr.EveryOpt ok owner e
  | .block b e p s =>
    ok owner (.expr (.block b e p s)) ∧ Stmt.EveryAll ok owner b ∧ Expr.EveryOpt ok owner e
  | .call x q as p s => ok owner (.expr (.call x q as p s)) ∧ Expr.EveryAll ok owner as
  | .callValue c as p s =>
    ok owner (.expr (.callValue c as p s)) ∧ Expr.Every ok owner c ∧ Expr.EveryAll ok owner as
  | .structInit x vs p s => ok owner (.expr (.structInit x vs p s)) ∧ Expr.EveryAll ok owner vs
  | .field e x p s => ok owner (.expr (.field e x p s)) ∧ Expr.Every ok owner e
  | .cast e t p => ok owner (.expr (.cast e t p)) ∧ Expr.Every ok owner e

def Expr.EveryOpt (ok : Option String → Node → Prop) (owner : Option String) :
    Option (Expr Span) → Prop
  | none => True
  | some e => Expr.Every ok owner e

def Expr.EveryAll (ok : Option String → Node → Prop) (owner : Option String) :
    List (Expr Span) → Prop
  | [] => True
  | e :: es => Expr.Every ok owner e ∧ Expr.EveryAll ok owner es

def Stmt.Every (ok : Option String → Node → Prop) (owner : Option String) : Stmt Span → Prop
  | .expr e => ok owner (.stmt (.expr e)) ∧ Expr.Every ok owner e
  | .typeDecl x t p s => ok owner (.stmt (.typeDecl x t p s))
  | .varDecl x t e p s y => ok owner (.stmt (.varDecl x t e p s y)) ∧ Expr.Every ok owner e
  | .funDecl x fs b t p s s' =>
    ok owner (.stmt (.funDecl x fs b t p s s')) ∧ Expr.EveryOpt ok (some x) b
  | .ret e f p s => ok owner (.stmt (.ret e f p s)) ∧ Expr.Every ok owner e
  | .yield e p => ok owner (.stmt (.yield e p)) ∧ Expr.Every ok owner e
  | .assign l r p =>
    ok owner (.stmt (.assign l r p)) ∧ Expr.Every ok owner l ∧ Expr.Every ok owner r

def Stmt.EveryAll (ok : Option String → Node → Prop) (owner : Option String) :
    List (Stmt Span) → Prop
  | [] => True
  | s :: ss => Stmt.Every ok owner s ∧ Stmt.EveryAll ok owner ss

end

section
variable {ok : Option String → Node → Prop}

theorem Expr.Every.root {owner : Option String} {e : Expr Span} (h : Expr.Every ok owner e) :
    ok owner (.expr e) := by
  cases e <;> first | exact h | exact h.1

mutual

/-- A condition that every node meets holds throughout. -/
theorem Expr.every_of_forall (h : ∀ owner n, ok owner n) (owner : Option String) :
    ∀ e, Expr.Every ok owner e
  | .literal .. | .var .. => h ..
  | .unary _ e _ | .deref e _ | .addressOf e _ | .field e _ _ _ | .cast e _ _ =>
    ⟨h .., Expr.every_of_forall h owner e⟩
  | .binary _ l r _ | .comparison _ l r _ =>
    ⟨h .., Expr.every_of_forall h owner l, Expr.every_of_forall h owner r⟩
  | .cond c t e _ =>
    ⟨h .., Expr.every_of_forall h owner c, Expr.every_of_forall h owner t,
      Expr.everyOpt_of_forall h owner e⟩
  | .alloc _ e _ => ⟨h .., Expr.everyOpt_of_forall h owner e⟩
  | .block b e _ _ => ⟨h .., Stmt.everyAll_of_forall h owner b, Expr.everyOpt_of_forall h owner e⟩
  | .call _ _ as _ _ | .structInit _ as _ _ => ⟨h .., Expr.everyAll_of_forall h owner as⟩
  | .callValue c as _ _ =>
    ⟨h .., Expr.every_of_forall h owner c, Expr.everyAll_of_forall h owner as⟩

theorem Expr.everyOpt_of_forall (h : ∀ owner n, ok owner n) (owner : Option String) :
    ∀ e, Expr.EveryOpt ok owner e
  | none => trivial
  | some e => Expr.every_of_forall h owner e

theorem Expr.everyAll_of_forall (h : ∀ owner n, ok owner n) (owner : Option String) :
    ∀ es, Expr.EveryAll ok owner es
  | [] => trivial
  | e :: es => ⟨Expr.every_of_forall h owner e, Expr.everyAll_of_forall h owner es⟩

theorem Stmt.every_of_forall (h : ∀ owner n, ok owner n) (owner : Option String) :
    ∀ s, Stmt.Every ok owner s
  | .typeDecl .. => h ..
  | .expr e | .varDecl _ _ e _ _ _ | .ret e _ _ _ | .yield e _ =>
    ⟨h .., Expr.every_of_forall h owner e⟩
  | .funDecl x _ b _ _ _ _ => ⟨h .., Expr.everyOpt_of_forall h (some x) b⟩
  | .assign l r _ => ⟨h .., Expr.every_of_forall h owner l, Expr.every_of_forall h owner r⟩

theorem Stmt.everyAll_of_forall (h : ∀ owner n, ok owner n) (owner : Option String) :
    ∀ ss, Stmt.EveryAll ok owner ss
  | [] => trivial
  | s :: ss => ⟨Stmt.every_of_forall h owner s, Stmt.everyAll_of_forall h owner ss⟩

end

end

section
variable {ok ok' : Option String → Node → Prop}

mutual

/-- Two conditions that hold throughout hold of every node together. -/
theorem Expr.every_and : ∀ (owner : Option String) (e : Expr Span), Expr.Every ok owner e →
    Expr.Every ok' owner e → Expr.Every (fun o n => ok o n ∧ ok' o n) owner e
  | _, .literal .., h, h' | _, .var .., h, h' => ⟨h, h'⟩
  | owner, .unary _ e _, ⟨h, he⟩, ⟨h', he'⟩ | owner, .deref e _, ⟨h, he⟩, ⟨h', he'⟩
  | owner, .addressOf e _, ⟨h, he⟩, ⟨h', he'⟩ | owner, .field e _ _ _, ⟨h, he⟩, ⟨h', he'⟩
  | owner, .cast e _ _, ⟨h, he⟩, ⟨h', he'⟩ => ⟨⟨h, h'⟩, Expr.every_and owner e he he'⟩
  | owner, .binary _ l r _, ⟨h, hl, hr⟩, ⟨h', hl', hr'⟩
  | owner, .comparison _ l r _, ⟨h, hl, hr⟩, ⟨h', hl', hr'⟩ =>
    ⟨⟨h, h'⟩, Expr.every_and owner l hl hl', Expr.every_and owner r hr hr'⟩
  | owner, .cond c t e _, ⟨h, hc, ht, he⟩, ⟨h', hc', ht', he'⟩ =>
    ⟨⟨h, h'⟩, Expr.every_and owner c hc hc', Expr.every_and owner t ht ht',
      Expr.everyOpt_and owner e he he'⟩
  | owner, .alloc _ e _, ⟨h, he⟩, ⟨h', he'⟩ => ⟨⟨h, h'⟩, Expr.everyOpt_and owner e he he'⟩
  | owner, .block b e _ _, ⟨h, hb, he⟩, ⟨h', hb', he'⟩ =>
    ⟨⟨h, h'⟩, Stmt.everyAll_and owner b hb hb', Expr.everyOpt_and owner e he he'⟩
  | owner, .call _ _ as _ _, ⟨h, has⟩, ⟨h', has'⟩
  | owner, .structInit _ as _ _, ⟨h, has⟩, ⟨h', has'⟩ =>
    ⟨⟨h, h'⟩, Expr.everyAll_and owner as has has'⟩
  | owner, .callValue c as _ _, ⟨h, hc, has⟩, ⟨h', hc', has'⟩ =>
    ⟨⟨h, h'⟩, Expr.every_and owner c hc hc', Expr.everyAll_and owner as has has'⟩

theorem Expr.everyOpt_and : ∀ (owner : Option String) (e : Option (Expr Span)),
    Expr.EveryOpt ok owner e → Expr.EveryOpt ok' owner e →
    Expr.EveryOpt (fun o n => ok o n ∧ ok' o n) owner e
  | _, none, _, _ => trivial
  | owner, some e, h, h' => Expr.every_and owner e h h'

theorem Expr.everyAll_and : ∀ (owner : Option String) (es : List (Expr Span)),
    Expr.EveryAll ok owner es → Expr.EveryAll ok' owner es →
    Expr.EveryAll (fun o n => ok o n ∧ ok' o n) owner es
  | _, [], _, _ => trivial
  | owner, e :: es, ⟨he, hes⟩, ⟨he', hes'⟩ =>
    ⟨Expr.every_and owner e he he', Expr.everyAll_and owner es hes hes'⟩

theorem Stmt.every_and : ∀ (owner : Option String) (s : Stmt Span), Stmt.Every ok owner s →
    Stmt.Every ok' owner s → Stmt.Every (fun o n => ok o n ∧ ok' o n) owner s
  | _, .typeDecl .., h, h' => ⟨h, h'⟩
  | owner, .expr e, ⟨h, he⟩, ⟨h', he'⟩ | owner, .varDecl _ _ e _ _ _, ⟨h, he⟩, ⟨h', he'⟩
  | owner, .ret e _ _ _, ⟨h, he⟩, ⟨h', he'⟩ | owner, .yield e _, ⟨h, he⟩, ⟨h', he'⟩ =>
    ⟨⟨h, h'⟩, Expr.every_and owner e he he'⟩
  | _, .funDecl x _ b _ _ _ _, ⟨h, hb⟩, ⟨h', hb'⟩ =>
    ⟨⟨h, h'⟩, Expr.everyOpt_and (some x) b hb hb'⟩
  | owner, .assign l r _, ⟨h, hl, hr⟩, ⟨h', hl', hr'⟩ =>
    ⟨⟨h, h'⟩, Expr.every_and owner l hl hl', Expr.every_and owner r hr hr'⟩

theorem Stmt.everyAll_and : ∀ (owner : Option String) (ss : List (Stmt Span)),
    Stmt.EveryAll ok owner ss → Stmt.EveryAll ok' owner ss →
    Stmt.EveryAll (fun o n => ok o n ∧ ok' o n) owner ss
  | _, [], _, _ => trivial
  | owner, s :: ss, ⟨hs, hss⟩, ⟨hs', hss'⟩ =>
    ⟨Stmt.every_and owner s hs hs', Stmt.everyAll_and owner ss hss hss'⟩

end

end

/-! ## The list of nodes -/

mutual

/-- The nodes of an expression, itself first. -/
def Expr.nodes : Expr Span → List Node
  | .literal v p => [.expr (.literal v p)]
  | .var x p s y => [.expr (.var x p s y)]
  | .unary op e p => .expr (.unary op e p) :: e.nodes
  | .binary op l r p => .expr (.binary op l r p) :: (l.nodes ++ r.nodes)
  | .comparison op l r p => .expr (.comparison op l r p) :: (l.nodes ++ r.nodes)
  | .cond c t e p => .expr (.cond c t e p) :: (c.nodes ++ (t.nodes ++ Expr.nodesOpt e))
  | .deref e p => .expr (.deref e p) :: e.nodes
  | .addressOf e p => .expr (.addressOf e p) :: e.nodes
  | .alloc t e p => .expr (.alloc t e p) :: Expr.nodesOpt e
  | .block b e p s => .expr (.block b e p s) :: (Stmt.nodesAll b ++ Expr.nodesOpt e)
  | .call x q as p s => .expr (.call x q as p s) :: Expr.nodesAll as
  | .callValue c as p s => .expr (.callValue c as p s) :: (c.nodes ++ Expr.nodesAll as)
  | .structInit x vs p s => .expr (.structInit x vs p s) :: Expr.nodesAll vs
  | .field e x p s => .expr (.field e x p s) :: e.nodes
  | .cast e t p => .expr (.cast e t p) :: e.nodes

def Expr.nodesOpt : Option (Expr Span) → List Node
  | none => []
  | some e => e.nodes

def Expr.nodesAll : List (Expr Span) → List Node
  | [] => []
  | e :: es => e.nodes ++ Expr.nodesAll es

/-- The nodes of a statement, itself first. -/
def Stmt.nodes : Stmt Span → List Node
  | .expr e => .stmt (.expr e) :: e.nodes
  | .typeDecl x t p s => [.stmt (.typeDecl x t p s)]
  | .varDecl x t e p s y => .stmt (.varDecl x t e p s y) :: e.nodes
  | .funDecl x fs b t p s s' => .stmt (.funDecl x fs b t p s s') :: Expr.nodesOpt b
  | .ret e f p s => .stmt (.ret e f p s) :: e.nodes
  | .yield e p => .stmt (.yield e p) :: e.nodes
  | .assign l r p => .stmt (.assign l r p) :: (l.nodes ++ r.nodes)

def Stmt.nodesAll : List (Stmt Span) → List Node
  | [] => []
  | s :: ss => s.nodes ++ Stmt.nodesAll ss

end

section
variable {ok : Node → Prop}

mutual

/-- A condition that all nodes of the list meet, whatever function they stand in. -/
theorem Expr.every_of_nodes (owner : Option String) : ∀ e : Expr Span, (∀ n ∈ e.nodes, ok n) →
    Expr.Every (fun _ => ok) owner e
  | .literal .., h | .var .., h => h _ List.mem_cons_self
  | .unary _ e _, h | .deref e _, h | .addressOf e _, h | .field e _ _ _, h | .cast e _ _, h =>
    have ⟨hn, he⟩ := List.forall_mem_cons.1 h
    ⟨hn, Expr.every_of_nodes owner e he⟩
  | .binary _ l r _, h | .comparison _ l r _, h =>
    have ⟨hn, h⟩ := List.forall_mem_cons.1 h
    have ⟨hl, hr⟩ := List.forall_mem_append.1 h
    ⟨hn, Expr.every_of_nodes owner l hl, Expr.every_of_nodes owner r hr⟩
  | .cond c t e _, h =>
    have ⟨hn, h⟩ := List.forall_mem_cons.1 h
    have ⟨hc, h⟩ := List.forall_mem_append.1 h
    have ⟨ht, he⟩ := List.forall_mem_append.1 h
    ⟨hn, Expr.every_of_nodes owner c hc, Expr.every_of_nodes owner t ht,
      Expr.everyOpt_of_nodes owner e he⟩
  | .alloc _ e _, h =>
    have ⟨hn, he⟩ := List.forall_mem_cons.1 h
    ⟨hn, Expr.everyOpt_of_nodes owner e he⟩
  | .block b e _ _, h =>
    have ⟨hn, h⟩ := List.forall_mem_cons.1 h
    have ⟨hb, he⟩ := List.forall_mem_append.1 h
    ⟨hn, Stmt.everyAll_of_nodes owner b hb, Expr.everyOpt_of_nodes owner e he⟩
  | .call _ _ as _ _, h | .structInit _ as _ _, h =>
    have ⟨hn, has⟩ := List.forall_mem_cons.1 h
    ⟨hn, Expr.everyAll_of_nodes owner as has⟩
  | .callValue c as _ _, h =>
    have ⟨hn, h⟩ := List.forall_mem_cons.1 h
    have ⟨hc, has⟩ := List.forall_mem_append.1 h
    ⟨hn, Expr.every_of_nodes owner c hc, Expr.everyAll_of_nodes owner as has⟩

theorem Expr.everyOpt_of_nodes (owner : Option String) : ∀ e : Option (Expr Span),
    (∀ n ∈ Expr.nodesOpt e, ok n) → Expr.EveryOpt (fun _ => ok) owner e
  | none, _ => trivial
  | some e, h => Expr.every_of_nodes owner e h

theorem Expr.everyAll_of_nodes (owner : Option String) : ∀ es : List (Expr Span),
    (∀ n ∈ Expr.nodesAll es, ok n) → Expr.EveryAll (fun _ => ok) owner es
  | [], _ => trivial
  | e :: es, h =>
    have ⟨he, hes⟩ := List.forall_mem_append.1 h
    ⟨Expr.every_of_nodes owner e he, Expr.everyAll_of_nodes owner es hes⟩

theorem Stmt.every_of_nodes (owner : Option String) : ∀ s : Stmt Span, (∀ n ∈ s.nodes, ok n) →
    Stmt.Every (fun _ => ok) owner s
  | .typeDecl .., h => h _ List.mem_cons_self
  | .expr e, h | .varDecl _ _ e _ _ _, h | .ret e _ _ _, h | .yield e _, h =>
    have ⟨hn, he⟩ := List.forall_mem_cons.1 h
    ⟨hn, Expr.every_of_nodes owner e he⟩
  | .funDecl x _ b _ _ _ _, h =>
    have ⟨hn, hb⟩ := List.forall_mem_cons.1 h
    ⟨hn, Expr.everyOpt_of_nodes (some x) b hb⟩
  | .assign l r _, h =>
    have ⟨hn, h⟩ := List.forall_mem_cons.1 h
    have ⟨hl, hr⟩ := List.forall_mem_append.1 h
    ⟨hn, Expr.every_of_nodes owner l hl, Expr.every_of_nodes owner r hr⟩

theorem Stmt.everyAll_of_nodes (owner : Option String) : ∀ ss : List (Stmt Span),
    (∀ n ∈ Stmt.nodesAll ss, ok n) → Stmt.EveryAll (fun _ => ok) owner ss
  | [], _ => trivial
  | s :: ss, h =>
    have ⟨hs, hss⟩ := List.forall_mem_append.1 h
    ⟨Stmt.every_of_nodes owner s hs, Stmt.everyAll_of_nodes owner ss hss⟩

end

end

/-! ## Decidability -/

section
variable {ok : Option String → Node → Prop} [∀ owner n, Decidable (ok owner n)]

mutual

/-- Whether a condition that can be decided of each node holds of all nodes. -/
def Expr.decideEvery : ∀ owner e, Decidable (Expr.Every ok owner e)
  | _, .literal .. | _, .var .. => inferInstanceAs (Decidable (ok _ _))
  | owner, .unary _ e _ | owner, .deref e _ | owner, .addressOf e _ | owner, .field e _ _ _
  | owner, .cast e _ _ =>
    have := Expr.decideEvery owner e
    inferInstanceAs (Decidable (_ ∧ _))
  | owner, .binary _ l r _ | owner, .comparison _ l r _ =>
    have := Expr.decideEvery owner l
    have := Expr.decideEvery owner r
    inferInstanceAs (Decidable (_ ∧ _ ∧ _))
  | owner, .cond c t e _ =>
    have := Expr.decideEvery owner c
    have := Expr.decideEvery owner t
    have := Expr.decideEveryOpt owner e
    inferInstanceAs (Decidable (_ ∧ _ ∧ _ ∧ _))
  | owner, .alloc _ e _ =>
    have := Expr.decideEveryOpt owner e
    inferInstanceAs (Decidable (_ ∧ _))
  | owner, .block b e _ _ =>
    have := Stmt.decideEveryAll owner b
    have := Expr.decideEveryOpt owner e
    inferInstanceAs (Decidable (_ ∧ _ ∧ _))
  | owner, .call _ _ es _ _ | owner, .structInit _ es _ _ =>
    have := Expr.decideEveryAll owner es
    inferInstanceAs (Decidable (_ ∧ _))
  | owner, .callValue c es _ _ =>
    have := Expr.decideEvery owner c
    have := Expr.decideEveryAll owner es
    inferInstanceAs (Decidable (_ ∧ _ ∧ _))

def Expr.decideEveryOpt : ∀ owner e, Decidable (Expr.EveryOpt ok owner e)
  | _, none => .isTrue trivial
  | owner, some e => Expr.decideEvery owner e

def Expr.decideEveryAll : ∀ owner es, Decidable (Expr.EveryAll ok owner es)
  | _, [] => .isTrue trivial
  | owner, e :: es =>
    have := Expr.decideEvery owner e
    have := Expr.decideEveryAll owner es
    inferInstanceAs (Decidable (_ ∧ _))

def Stmt.decideEvery : ∀ owner s, Decidable (Stmt.Every ok owner s)
  | owner, .expr e | owner, .varDecl _ _ e _ _ _ | owner, .ret e _ _ _ | owner, .yield e _ =>
    have := Expr.decideEvery owner e
    inferInstanceAs (Decidable (_ ∧ _))
  | _, .typeDecl .. => inferInstanceAs (Decidable (ok _ _))
  | _, .funDecl x _ b _ _ _ _ =>
    have := Expr.decideEveryOpt (some x) b
    inferInstanceAs (Decidable (_ ∧ _))
  | owner, .assign l r _ =>
    have := Expr.decideEvery owner l
    have := Expr.decideEvery owner r
    inferInstanceAs (Decidable (_ ∧ _ ∧ _))

def Stmt.decideEveryAll : ∀ owner ss, Decidable (Stmt.EveryAll ok owner ss)
  | _, [] => .isTrue trivial
  | owner, s :: ss =>
    have := Stmt.decideEvery owner s
    have := Stmt.decideEveryAll owner ss
    inferInstanceAs (Decidable (_ ∧ _))

end

instance (owner : Option String) (ss : List (Stmt Span)) : Decidable (Stmt.EveryAll ok owner ss) :=
  Stmt.decideEveryAll owner ss

end

end TypeInference
