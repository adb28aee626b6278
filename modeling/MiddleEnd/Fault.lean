import MiddleEnd.Diagnostic
import MiddleEnd.Ty.Printer

/-! Broken promises between the passes. A fault is a defect of the compiler or of code that was put
together by hand, never of a user's program. -/

namespace MiddleEnd

inductive Fault where
  | missingSymbol (id : Nat)
  | missingVariable (number : Nat)
  | missingAlias (index : Nat)
  | missingInstruction (id : Nat)
  | missingCopy (name : String)
  | missingArgument (name : String)
  | noScope
  | unpushedScope
  | unboundBinder (name : String) (node : Nat)
  | unresolvedName (name : String) (node : Nat)
  | unresolvedType (name : String)
  | bareConstructor (name : String)
  | notConstructor (name : String)
  | notFunction (name : String)
  | endlessCode
  | endlessTypes
  | untypedSymbol (name : String)
  | untyped (name : String)
  | openInstance (type : Ty)
  | notTuple (name : String)
  | notOption (name : String)
  | unlinked (name : String)
  | detached (block : String)
  | selfNested (block : String)
  | untypedFunction (name : String)
  | untypedParameter (name function : String)
  | untypedInstruction (name block : String)
  | untypedOperand (operand name : String)
  | nestedFunction (name : String)
  | noClosure (name callee : String)
  | notKnown (name callee : String)
  | otherCaptures (function : String)

def Fault.message : Fault → String
  | missingSymbol id => s!"index SymbolId({id}) is out of bounds for this IndexVec"
  | missingVariable number => s!"index TypeVariableId({number}) is out of bounds for this IndexVec"
  | missingAlias index => s!"type alias {index} has no type"
  | missingInstruction id => s!"index InstructionId({id}) is out of bounds for this IndexVec"
  | missingCopy name => s!"no entry found for key: '{name}'"
  | missingArgument name => s!"'{name}' has no argument"
  | noScope => "Tried to add a binding without any scope pushed"
  | unpushedScope => "Attempted to pop a scope which was never pushed"
  | unboundBinder name node =>
    s!"binder '{name}' (NodeId({node})) was never registered by name resolution"
  | unresolvedName name node => s!"reference to '{name}' (NodeId({node})) was never resolved"
  | unresolvedType name => s!"type name '{name}' was never resolved"
  | bareConstructor name =>
    s!"internal error: entered unreachable code: constructor '{name}' used without an argument"
  | notConstructor name =>
    s!"internal error: entered unreachable code: '{name}' resolved as a type constructor"
  | notFunction name => s!"internal error: entered unreachable code: '{name}' is not a function"
  | endlessCode => "blocks are nested without end"
  | endlessTypes => "types are nested without end"
  | untypedSymbol name => s!"symbol '{name}' referenced before it was typed"
  | untyped name => s!"identifier '{name}' has no entry in the type table"
  | openInstance type =>
    "instantiated type " ++ type.inspect ++ " is unresolved but its node was not"
  | notTuple name =>
    s!"internal error: entered unreachable code: destructured value '{name}' is not a tuple"
  | notOption name =>
    s!"internal error: entered unreachable code: matched value '{name}' is not an option"
  | unlinked name => s!"instruction '{name}' is not linked into a block"
  | detached block => s!"block '{block}' is detached"
  | selfNested block => s!"block '{block}' contains itself"
  | untypedFunction name => s!"top-level function '{name}' has no type"
  | untypedParameter name function => s!"parameter '{name}' of '{function}' has no type"
  | untypedInstruction name block => s!"'{name}' in block '{block}' has no type"
  | untypedOperand operand name => s!"operand '{operand}' of '{name}' has no type"
  | nestedFunction name => s!"function '{name}' was not hoisted"
  | noClosure name callee => s!"'{name}' calls '{callee}' as a closure but it has none"
  | notKnown name callee =>
    s!"'{name}' calls '{callee}' directly but it is not a known function"
  | otherCaptures function => s!"closure of '{function}' captures different names than recorded"

/-- What stops a compilation. -/
inductive Stop where
  | rejected (error : Diagnostic)
  | fault (cause : Fault)

end MiddleEnd
