/-!
# Source positions

A `Span` is a half-open range of byte offsets into a source text. Every syntax node, symbol and
error carries one.
-/

namespace TypeInference

/-- The bytes from `start` up to, not including, `stop`. -/
structure Span where
  start : Nat
  stop : Nat
  deriving DecidableEq, Repr, Inhabited

namespace Span

def length (s : Span) : Nat := s.stop - s.start

def isEmpty (s : Span) : Bool := s.start == s.stop

/-- The written form, `start..stop`. -/
def text (s : Span) : String := toString s.start ++ ".." ++ toString s.stop

/-- Source order: by start, then by end. -/
def before (s t : Span) : Bool := s.start < t.start || (s.start == t.start && s.stop < t.stop)

end Span

end TypeInference
