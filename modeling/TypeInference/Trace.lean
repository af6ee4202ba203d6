import TypeInference.Obligation

/-!
# What a check does

An `Event` is one thing that the check of a statement does and that its verdict rests on. A check
keeps its events in order, so that they can be laid beside the types it ends with: every demand has
to hold, every use of a symbol has to be an instance of the symbol's scheme, every `return` has to
speak of the function around it.
-/

namespace TypeInference

inductive Event where
  /-- An obligation was recorded. -/
  | demand (o : Obligation)
  /-- A read at `pos` took `ty` as the type of `symbol`. -/
  | read (pos : Span) (symbol : SymbolId) (ty : Ty)
  /-- A call at `pos` took `ty` as the type of `symbol`, which it found for its callee. -/
  | call (pos : Span) (symbol : SymbolId) (ty : Ty)
  /-- The type declaration at `pos` took `symbol` for its own. -/
  | typeDecl (pos : Span) (symbol : SymbolId)
  /-- The formal at `pos` took `symbol` for its own. -/
  | formal (pos : Span) (symbol : SymbolId)
  /-- The body of the function declared at `pos` was entered: `symbol` is taken for the function's
  own, and `result` is to be the type of its result. -/
  | enter (pos : Span) (symbol : SymbolId) (result : Ty)
  /-- The body of the function declared at `pos` was left. -/
  | leave (pos : Span)
  /-- The `return` at `pos` was held to the result type `ty`. -/
  | ret (pos : Span) (ty : Ty)
  /-- The field access at `pos` has type `ty`. -/
  | field (pos : Span) (ty : Ty)
  deriving DecidableEq, Repr

/-- The obligations among events. -/
def Event.demands (events : List Event) : List Obligation :=
  events.filterMap fun
    | .demand o => some o
    | _ => none

/-- The symbols read or called among events, each with the type that was taken for it. -/
def Event.uses (events : List Event) : List (SymbolId × Ty) :=
  events.filterMap fun
    | .read _ x t | .call _ x t => some (x, t)
    | _ => none

end TypeInference
