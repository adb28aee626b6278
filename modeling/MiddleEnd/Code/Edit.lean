import MiddleEnd.Code.Arena
import MiddleEnd.Code.Forward
import MiddleEnd.Code.Hoist

/-! The passes over blocks in an arena, which edit them in place. A pass walks along the links of a block
and goes into inner blocks on its way. -/

namespace MiddleEnd

/-! ### References -/

structure Rewriting where
  arena : Arena
  copies : NameMap Copy := .empty
  table : TypeTable

abbrev RewriteM := StateT Rewriting (Except Fault)

namespace Rewrite

def cell (id : Nat) : RewriteM Cell := do (← get).arena.get id

def setValue (id : Nat) (value : Value BlockRef) : RewriteM Unit :=
  modify fun state => { state with arena := state.arena.setValue id value }

def remove (id : Nat) (name : String) : RewriteM Unit := do
  let state ← get
  set { state with arena := ← state.arena.remove id, table := state.table.erase name }

def dropCopy (name : String) : RewriteM Unit := do
  if isTemporary name then
    let state ← get
    match state.copies.find? name with
    | none => throw (.missingCopy name)
    | some copy => if state.arena.isLinked copy.id then remove copy.id name

def dropCopies : List String → RewriteM Unit
  | [] => return
  | name :: names => do
    dropCopy name
    dropCopies names

def record (name : String) (copy : Copy) : RewriteM Unit :=
  modify fun state => { state with copies := state.copies.insert name copy }

def instruction (id : Nat) : RewriteM (List BlockRef) := do
  let cell ← cell id
  let copies := (← get).copies
  match cell.value with
  | .op (.ref target) =>
    record cell.name ⟨id, target, false⟩
    return []
  | .op (.external target) =>
    record cell.name ⟨id, target, true⟩
    return []
  | .op op =>
    let (op, chain) := Copies.callee copies op
    setValue id (.op (op.mapOperands (Copies.target copies)))
    dropCopies (chain ++ op.operands.filter (Copies.isLocal copies))
    return []
  | .branch test yes no =>
    setValue id (.branch (Copies.target copies test) yes no)
    dropCopies ([test].filter (Copies.isLocal copies))
    return [yes, no]
  | .function _ body _ => return [body]

def dropTrailing (block : BlockRef) : RewriteM Unit := do
  let arena := (← get).arena
  match arena.last? block with
  | none => return
  | some last =>
    match arena.previous? last with
    | none => return
    | some previous =>
      let last' ← cell last
      let previous ← cell previous
      match last'.value with
      | .op (.ref target) =>
        if isTemporary last'.name && previous.name == target && !previous.value.isFunction then
          remove last last'.name
      | _ => return

def walk : Nat → Option Nat → RewriteM Unit
  | _, none => return
  | 0, some _ => throw .endlessCode
  | fuel + 1, some id => do
    let next := (← get).arena.next? id
    let blocks ← instruction id
    blocks.forM fun block => do
      walk fuel ((← get).arena.first? block)
      dropTrailing block
    walk fuel next

def block (fuel : Nat) (ref : BlockRef) : RewriteM Unit := do
  walk fuel ((← get).arena.first? ref)
  dropTrailing ref

end Rewrite

def Arena.forward (arena : Arena) (block : BlockRef) (table : TypeTable) :
    Except Fault (Arena × TypeTable) := do
  let (_, state) ← (Rewrite.block arena.size block).run { arena, table }
  return (state.arena, state.table)

/-! ### Functions -/

structure FunctionRef where
  params : List String
  body : BlockRef
  recursive : Bool
  span : Span

structure Lifting where
  arena : Arena
  functions : NameMap FunctionRef := .empty
  recursive : List String := []

abbrev LiftM := StateT Lifting (Except Fault)

namespace Lift

def cell (id : Nat) : LiftM Cell := do (← get).arena.get id

def setValue (id : Nat) (value : Value BlockRef) : LiftM Unit :=
  modify fun state => { state with arena := state.arena.setValue id value }

def noteCall (current : Option String) (callee : String) : LiftM Unit :=
  if current = some callee then
    modify fun state => { state with recursive := callee :: state.recursive }
  else return

def function (id : Nat) : LiftM FunctionRef := do
  let cell ← cell id
  match cell.value with
  | .function params body recursive => return ⟨params, body, recursive, cell.span⟩
  | _ => throw (.notFunction cell.name)

def finish (captures : Captures) (id : Nat) (name : String) (function : FunctionRef) :
    LiftM Unit := do
  let state ← get
  let arena ←
    match captures.closures.find? name with
    | some held => pure (state.arena.setValue id (.op (.closure held name)))
    | none => state.arena.remove id
  let recursive := state.recursive.contains name
  let functions := state.functions.insert name { function with recursive }
  set { state with arena, functions }

def instruction (captures : Captures) (inner : Option String → Option Nat → LiftM Unit)
    (current : Option String) (id : Nat) : LiftM Unit := do
  let cell ← cell id
  match cell.value with
  | .op (.call .direct callee args) =>
    noteCall current callee
    setValue id (.op (.call (captures.callKind callee) callee args))
  | .op _ => return
  | .branch _ yes no =>
    inner current ((← get).arena.first? yes)
    inner current ((← get).arena.first? no)
  | .function _ _ _ =>
    let function ← function id
    inner (some cell.name) ((← get).arena.first? function.body)
    finish captures id cell.name function

def walk (captures : Captures) : Nat → Option String → Option Nat → LiftM Unit
  | _, _, none => return
  | 0, _, some _ => throw .endlessCode
  | fuel + 1, current, some id => do
    let next := (← get).arena.next? id
    instruction captures (walk captures fuel) current id
    walk captures fuel current next

end Lift

namespace Arena

def hoist (arena : Arena) (block : BlockRef) (captures : Captures) :
    Except Fault (Arena × NameMap FunctionRef) := do
  let (_, state) ← (Lift.walk captures arena.size none (arena.first? block)).run { arena }
  return (state.arena, state.functions)

def readFunctions (arena : Arena) :
    List (String × FunctionRef) → Except Fault (List (String × Toplevel))
  | [] => return []
  | (name, function) :: rest => do
    let body ← arena.read function.body
    let rest ← arena.readFunctions rest
    return (name, ⟨function.params, body, function.recursive, function.span⟩) :: rest

def program (arena : Arena) (functions : NameMap FunctionRef) (closures : NameMap (List String))
    (entry : BlockRef) : Except Fault Converted := do
  let toplevel ← arena.readFunctions functions.entries
  return { toplevel := ⟨toplevel⟩, closures, entry := ← arena.read entry }

end Arena

end MiddleEnd
