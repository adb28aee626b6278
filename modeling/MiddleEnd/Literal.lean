/-! Constants of the language. -/

namespace MiddleEnd

/-- A double precision number, given by its bits. -/
structure Double where
  bits : UInt64
  deriving DecidableEq, Repr

inductive Literal where
  | unit
  | bool (value : Bool)
  | int (value : Int)
  | float (value : Double)
  | string (value : String)
  deriving DecidableEq, Repr

end MiddleEnd
