/-!
Byte ranges of a source text.
-/

namespace Ecma3

/-- The bytes from `start` up to but not including `stop`. Nothing forces `start ≤ stop`: a range
that a caller made up is carried along as it is. -/
structure Span where
  start : Nat
  stop : Nat
deriving DecidableEq, Repr, Inhabited

namespace Span

/-- Number of bytes covered; zero when the ends are swapped. -/
def size (s : Span) : Nat := s.stop - s.start

def isEmpty (s : Span) : Bool := s.size == 0

/-- The text `start..stop`. -/
def render (s : Span) : String := toString s.start ++ ".." ++ toString s.stop

end Span
end Ecma3
