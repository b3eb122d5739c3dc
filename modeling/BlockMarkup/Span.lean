/-!
# Byte spans

A span gives the byte offsets at which a piece of a text begins and ends. It is
plain data: whoever reports a span answers for its order and its bounds.
-/

namespace BlockMarkup

/-- The byte offsets of the two ends of a piece of text. -/
structure Span where
  start : Nat
  stop : Nat
deriving DecidableEq, Inhabited

/-- The span of a number of bytes from an offset. -/
def Span.ofLength (start length : Nat) : Span := ⟨start, start + length⟩

end BlockMarkup
