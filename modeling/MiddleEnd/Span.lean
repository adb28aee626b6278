/-! Byte ranges of a source text. -/

namespace MiddleEnd

structure Span where
  start : Nat
  stop : Nat
  deriving DecidableEq, Repr, Inhabited

def Span.to (first second : Span) : Span :=
  ⟨min first.start second.start, max first.stop second.stop⟩

end MiddleEnd
