import MiddleEnd.Code.Capture
import MiddleEnd.Code.Program

/-! Closure conversion: functions move to the top level, and every call says how it is made. -/

namespace MiddleEnd

def Captures.callKind (captures : Captures) (callee : String) : CallKind :=
  if captures.closures.contains callee then .closure
  else if captures.known.contains callee then .direct
  else .closure

structure Hoisting where
  /-- The functions that have left their blocks, in the order in which they did. -/
  hoisted : Code := []
  /-- The functions found to call themselves. -/
  recursive : List String := []

abbrev HoistM := StateM Hoisting

namespace Hoist

def noteCall (current : Option String) (callee : String) : HoistM Unit :=
  if current = some callee then
    modify fun state => { state with recursive := callee :: state.recursive }
  else return

mutual
def block (captures : Captures) (current : Option String) : Block → HoistM Block
  | .mk name body => return .mk name (← code captures current body)
/-- A closure leaves its allocation where the function was; a known function leaves nothing. -/
def code (captures : Captures) (current : Option String) :
    List (Instr Block) → HoistM (List (Instr Block))
  | [] => return []
  | ⟨id, name, span, .op (.call .direct callee args)⟩ :: rest => do
    noteCall current callee
    let value := Op.call (captures.callKind callee) callee args
    return ⟨id, name, span, .op value⟩ :: (← code captures current rest)
  | ⟨id, name, span, .op op⟩ :: rest =>
    return ⟨id, name, span, .op op⟩ :: (← code captures current rest)
  | ⟨id, name, span, .branch test yes no⟩ :: rest => do
    let yes ← block captures current yes
    let no ← block captures current no
    return ⟨id, name, span, .branch test yes no⟩ :: (← code captures current rest)
  | ⟨id, name, span, .function params body _⟩ :: rest => do
    let body ← block captures (some name) body
    modify fun state =>
      let function : Instr Block :=
        ⟨id, name, span, .function params body (state.recursive.contains name)⟩
      { state with hoisted := state.hoisted ++ [function] }
    let rest ← code captures current rest
    match captures.closures.find? name with
    | some held => return ⟨id, name, span, .op (.closure held name)⟩ :: rest
    | none => return rest
end

end Hoist

def Instr.toplevel? (instr : Instr Block) : Option (String × Toplevel) :=
  match instr.value with
  | .function params body recursive => some (instr.name, ⟨params, body, recursive, instr.span⟩)
  | _ => none

def Block.hoist (block : Block) (captures : Captures) : Block × Code :=
  let (entry, state) := (Hoist.block captures none block).run {}
  (entry, state.hoisted)

def Block.convert (block : Block) (captures : Captures) : Converted :=
  let (entry, hoisted) := block.hoist captures
  { toplevel := .ofList (hoisted.filterMap Instr.toplevel?), closures := captures.closures, entry }

end MiddleEnd
