import MiddleEnd.NameMap
import MiddleEnd.Ty.Basic

/-! Functions from outside the program. -/

namespace MiddleEnd

structure External where
  type : Ty
  linkName : String
  deriving DecidableEq

def builtins : List (String × Ty) :=
  [("print_int", .function [.int] .unit),
   ("print_bool", .function [.bool] .unit),
   ("print_float", .function [.float] .unit),
   ("print_str", .function [.string] .unit),
   ("println_int", .function [.int] .unit),
   ("println_bool", .function [.bool] .unit),
   ("println_float", .function [.float] .unit),
   ("println_str", .function [.string] .unit),
   ("float_to_int", .function [.float] .int),
   ("int_to_float", .function [.int] .float),
   ("int_to_str", .function [.int] .string),
   ("float_to_str", .function [.float] .string),
   ("str_to_int", .function [.string] .int),
   ("str_to_float", .function [.string] .float),
   ("str_size", .function [.string] .int),
   ("str_concat", .function [.string, .string] .string),
   ("substr", .function [.string, .int, .int] .string),
   ("__str_equal", .function [.string, .string] .bool),
   ("get_line", .function [.unit] .string)]

def builtinExternals : NameMap External :=
  .ofList (builtins.map fun (name, type) => (name, ⟨type, name⟩))

def isBuiltin (name : String) (external : External) : Bool :=
  builtinExternals.find? name == some external

end MiddleEnd
