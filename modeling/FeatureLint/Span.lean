/-!
This file holds byte ranges of a source text.
-/

namespace FeatureLint

/-- A span runs from its start up to its end, which is not part of it. -/
structure Span where
  start : Nat
  stop : Nat
deriving DecidableEq, Repr

namespace Span

/-- This is the number of bytes in the span, which is zero when it ends before it starts. -/
def length (span : Span) : Nat :=
  span.stop - span.start

def isEmpty (span : Span) : Bool :=
  span.stop ≤ span.start

@[simp] theorem isEmpty_iff (span : Span) : span.isEmpty = true ↔ span.length = 0 := by
  simp [isEmpty, length]
  omega

end Span

end FeatureLint
