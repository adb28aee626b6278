import MiddleEnd.Code.Forward
import MiddleEnd.Code.Hoist
import MiddleEnd.Code.Verify
import MiddleEnd.Scope.Names
import MiddleEnd.Typing.Check

/-! All passes one after another. -/

namespace MiddleEnd

/-- A compiled program with the types of its names, and the texts that were asked for. -/
structure Compilation where
  typed : Typed
  program : Converted
  table : TypeTable
  dumps : List (Stage × String)

end MiddleEnd
