/-!
# Source spans

A span is a pair of byte offsets. Nothing forces the end to lie behind the start: a reversed
span is empty and has length zero.
-/

namespace Lineage

/-- The offsets where a piece of source text starts and stops. -/
structure Span where
  start : Nat
  stop : Nat
  deriving DecidableEq, Repr

namespace Span

def length (s : Span) : Nat := s.stop - s.start

def isEmpty (s : Span) : Bool := s.stop ≤ s.start

def inspect (s : Span) : String := s!"Span({s.start}..{s.stop})"

end Span

end Lineage
