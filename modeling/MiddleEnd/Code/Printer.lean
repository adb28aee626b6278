import MiddleEnd.Code.Block
import MiddleEnd.Fault
import MiddleEnd.Typing.Basic

/-! Blocks as text: one instruction in a line with its type, inner blocks indented below. -/

namespace MiddleEnd

def TypeTable.typeOf (table : TypeTable) (name : String) : Except Fault Ty :=
  match table.find? name with
  | some type => return type
  | none => throw (.untyped name)

def indented (indent : Nat) (line : String) : String :=
  String.ofList (List.replicate indent ' ') ++ line ++ "\n"

def instructionLine {β : Type} (table : TypeTable) (indent : Nat) (name : String)
    (value : Value β) : Except Fault String := do
  let type ← table.typeOf name
  return indented indent (name ++ " = " ++ value.text ++ " ; type=" ++ type.print)

mutual
def Block.print (table : TypeTable) (indent : Nat) : Block → Except Fault String
  | .mk name body => do
    let lines ← Code.print table indent body
    return indented indent ("BEGIN: " ++ name) ++ lines ++ indented indent ("END: " ++ name)
def Code.print (table : TypeTable) (indent : Nat) : List (Instr Block) → Except Fault String
  | [] => return ""
  | ⟨_, name, _, .op op⟩ :: rest => do
    let line ← instructionLine table indent name (.op op : Value Block)
    return line ++ (← Code.print table indent rest)
  | ⟨_, name, _, .branch test yes no⟩ :: rest => do
    let line ← instructionLine table indent name (.branch test yes no)
    let yes ← yes.print table (indent + 2)
    let no ← no.print table (indent + 2)
    return line ++ yes ++ no ++ (← Code.print table indent rest)
  | ⟨_, name, _, .function params body recursive⟩ :: rest => do
    let line ← instructionLine table indent name (.function params body recursive)
    let body ← body.print table (indent + 2)
    return line ++ body ++ (← Code.print table indent rest)
end

def Block.dump (block : Block) (table : TypeTable) : Except Fault String := block.print table 0

end MiddleEnd
