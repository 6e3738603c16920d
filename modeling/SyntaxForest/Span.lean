import SyntaxForest.Number.Decimal
/-!
# Source spans

A span is a byte range of one source. Nothing is required of the bounds: a span
may be reversed, fractional or NaN. `Span.covering` is the least range that
holds every given range.
-/

namespace SyntaxForest

/-- A byte range inside one source. -/
structure Span where
  source : Number
  start : Number
  stop : Number
deriving DecidableEq, Inhabited

namespace Span

/-- The span of a node that has no source text. -/
def empty : Span := ⟨.zero, .zero, .zero⟩

/-- Numeric equality of all three parts, so a span with a NaN differs from itself. -/
def eqv (a b : Span) : Bool :=
  a.source.eqv b.source && a.start.eqv b.start && a.stop.eqv b.stop

/-- Widen a span to hold another one. The source stays. -/
def widen (a b : Span) : Span :=
  { a with start := a.start.lesser b.start, stop := a.stop.greater b.stop }

/-- The least span that holds every given span, in the source of the first. -/
def covering : List Span → Span
  | [] => empty
  | first :: rest => rest.foldl widen first

/-- The written form of the range, without its source. -/
def text (s : Span) : String := s.start.text ++ "-" ++ s.stop.text

end Span

end SyntaxForest
