import Lookahead.Text

/-!
Spans of input. A span has a start and a position just behind its end, both counted in
64 bits. Nothing keeps the end from lying before the start.
-/

namespace Lookahead

structure Span where
  start : UInt64
  stop : UInt64
deriving DecidableEq, Repr, Inhabited

namespace Span

-- The span at the very beginning that covers nothing. It stands for no span at all.
def null : Span := ⟨0, 0⟩

def isNull (s : Span) : Bool := s = null

-- The distance from start to end, modulo `2 ^ 64`.
def length (s : Span) : UInt64 := s.stop - s.start

-- The smallest span that covers both. The null span is neutral.
def extend (s t : Span) : Span :=
  if s.isNull then t
  else if t.isNull then s
  else ⟨min s.start t.start, max s.stop t.stop⟩

def render (s : Span) : Text :=
  text "(" ++ Text.ofNat s.start.toNat ++ text "…" ++ Text.ofNat s.stop.toNat ++ text ")"

end Span

end Lookahead
