/-! Text on a terminal. How a text is coloured and how the colours of a text are taken out again is up to
the terminal. -/

namespace MiddleEnd

inductive Colour where
  | red
  | blue
  | cyan
  | white

structure Terminal where
  paint : Colour → String → String
  strip : String → String

end MiddleEnd
