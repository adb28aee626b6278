import MiddleEnd.Code.Program

/-! What code generation relies on: every name has a type, no function is nested, and every closure
that is called or made is a known one. -/

namespace MiddleEnd

namespace Verify

def require (holds : Bool) (fault : Fault) : Except Fault Unit :=
  if holds then return else throw fault

def operands (table : TypeTable) (name : String) : List String → Except Fault Unit
  | [] => return
  | operand :: rest => do
    require (table.contains operand) (.untypedOperand operand name)
    operands table name rest

def op (program : Converted) (name : String) : Op → Except Fault Unit
  | .call .closure callee _ =>
    require (!program.toplevel.contains callee || program.closures.contains callee)
      (.noClosure name callee)
  | .call .direct callee _ =>
    require (program.toplevel.contains callee && !program.closures.contains callee)
      (.notKnown name callee)
  | .closure captures function =>
    require (program.closures.find? function == some captures) (.otherCaptures function)
  | _ => return

mutual
def block (program : Converted) (table : TypeTable) : Block → Except Fault Unit
  | .mk label body => code program table label body
def code (program : Converted) (table : TypeTable) (label : String) :
    List (Instr Block) → Except Fault Unit
  | [] => return
  | ⟨_, name, _, .op value⟩ :: rest => do
    require (table.contains name) (.untypedInstruction name label)
    operands table name value.operands
    op program name value
    code program table label rest
  | ⟨_, name, _, .branch test yes no⟩ :: rest => do
    require (table.contains name) (.untypedInstruction name label)
    operands table name [test]
    block program table yes
    block program table no
    code program table label rest
  | ⟨_, name, _, .function _ _ _⟩ :: _ => do
    require (table.contains name) (.untypedInstruction name label)
    throw (.nestedFunction name)
end

def parameters (table : TypeTable) (function : String) : List String → Except Fault Unit
  | [] => return
  | param :: rest => do
    require (table.contains param) (.untypedParameter param function)
    parameters table function rest

def functions (program : Converted) (table : TypeTable) :
    List (String × Toplevel) → Except Fault Unit
  | [] => return
  | (name, function) :: rest => do
    require (table.contains name) (.untypedFunction name)
    parameters table name function.params
    block program table function.body
    functions program table rest

end Verify

def Converted.verify (program : Converted) (table : TypeTable) : Except Fault Unit := do
  Verify.functions program table program.toplevel.sorted
  Verify.block program table program.entry

end MiddleEnd
