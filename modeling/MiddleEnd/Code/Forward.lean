import MiddleEnd.Code.Lower

/-! Removal of references. An instruction that only gives another name to a value is a copy; what
reads a copy is made to read the value itself. -/

namespace MiddleEnd

/-- A copy: the instruction, and the name of the local value or external it stands for. -/
structure Copy where
  id : Nat
  target : String
  isExternal : Bool

structure Forwarding where
  copies : NameMap Copy := .empty
  /-- The instructions that are taken out of their blocks. -/
  removed : List Nat := []
  table : TypeTable
  /-- The first temporary that was to be dropped and is no copy. -/
  missing : Option String := none

abbrev ForwardM := StateM Forwarding

def isTemporary (name : String) : Bool := name.toList.head? == some '$'

namespace Copies

/-- Follows copies from a name; if they end at an external, gives the names on the way and the
external. -/
def toExternal (copies : NameMap Copy) : Nat → String → Option (List String × String)
  | 0, _ => none
  | fuel + 1, name =>
    match copies.find? name with
    | none => none
    | some copy =>
      if copy.isExternal then some ([name], copy.target)
      else
        (toExternal copies fuel copy.target).map fun (names, external) => (name :: names, external)

/-- A chain of copies meets no name twice, so it is no longer than there are copies. -/
def external? (copies : NameMap Copy) (name : String) : Option (List String × String) :=
  toExternal copies (copies.size + 1) name

def isLocal (copies : NameMap Copy) (name : String) : Bool :=
  match copies.find? name with
  | some copy => !copy.isExternal
  | none => false

def target (copies : NameMap Copy) (name : String) : String :=
  match copies.find? name with
  | some copy => if copy.isExternal then name else copy.target
  | none => name

/-- Calls of copies of externals become calls of the externals. Also gives the copies on the way. -/
def callee (copies : NameMap Copy) (op : Op) : Op × List String :=
  match op with
  | .call kind name args =>
    if kind = .external then (op, [])
    else
      match external? copies name with
      | some (names, external) => (.call .external external args, names)
      | none => (op, [])
  | _ => (op, [])

end Copies

namespace Forward

def isRemoved (state : Forwarding) (id : Nat) : Bool := state.removed.contains id

def remove (id : Nat) (name : String) : ForwardM Unit :=
  modify fun state =>
    { state with removed := id :: state.removed, table := state.table.erase name }

def dropCopy (name : String) : ForwardM Unit := do
  if isTemporary name then
    let state ← get
    match state.copies.find? name with
    | none => set { state with missing := state.missing.or (some name) }
    | some copy => if !isRemoved state copy.id then remove copy.id name

def dropCopies : List String → ForwardM Unit
  | [] => return
  | name :: names => do
    dropCopy name
    dropCopies names

def record (name : String) (copy : Copy) : ForwardM Unit :=
  modify fun state => { state with copies := state.copies.insert name copy }

/-- A block that ends in a copy of the value just before it can end in the value. -/
def dropTrailing (body : Code) : ForwardM Unit := do
  let state ← get
  match (body.filter fun instr => !isRemoved state instr.id).reverse with
  | last :: previous :: _ =>
    match last.value with
    | .op (.ref target) =>
      if isTemporary last.name && previous.name == target && !previous.value.isFunction then
        remove last.id last.name
    | _ => return
  | _ => return

def op (op : Op) : ForwardM Op := do
  let copies := (← get).copies
  let (op, chain) := Copies.callee copies op
  dropCopies (chain ++ op.operands.filter (Copies.isLocal copies))
  return op.mapOperands (Copies.target copies)

def name (name : String) : ForwardM String := do
  let copies := (← get).copies
  dropCopies ([name].filter (Copies.isLocal copies))
  return Copies.target copies name

mutual
def block : Block → ForwardM Block
  | .mk name body => do
    let body ← code body
    dropTrailing body
    return .mk name body
def code : List (Instr Block) → ForwardM (List (Instr Block))
  | [] => return []
  | ⟨id, name, span, .op (.ref target)⟩ :: rest => do
    record name ⟨id, target, false⟩
    return ⟨id, name, span, .op (.ref target)⟩ :: (← code rest)
  | ⟨id, name, span, .op (.external target)⟩ :: rest => do
    record name ⟨id, target, true⟩
    return ⟨id, name, span, .op (.external target)⟩ :: (← code rest)
  | ⟨id, name, span, .op value⟩ :: rest => do
    let value ← op value
    return ⟨id, name, span, .op value⟩ :: (← code rest)
  | ⟨id, name, span, .branch test yes no⟩ :: rest => do
    let test ← Forward.name test
    let yes ← block yes
    let no ← block no
    return ⟨id, name, span, .branch test yes no⟩ :: (← code rest)
  | ⟨id, name, span, .function params body recursive⟩ :: rest => do
    let body ← block body
    return ⟨id, name, span, .function params body recursive⟩ :: (← code rest)
end

end Forward

mutual
def Block.without (removed : List Nat) : Block → Block
  | .mk name body => .mk name (Code.without removed body)
def Code.without (removed : List Nat) : List (Instr Block) → List (Instr Block)
  | [] => []
  | ⟨id, name, span, .op op⟩ :: rest =>
    if removed.contains id then Code.without removed rest
    else ⟨id, name, span, .op op⟩ :: Code.without removed rest
  | ⟨id, name, span, .branch test yes no⟩ :: rest =>
    if removed.contains id then Code.without removed rest
    else
      ⟨id, name, span, .branch test (yes.without removed) (no.without removed)⟩ ::
        Code.without removed rest
  | ⟨id, name, span, .function params body recursive⟩ :: rest =>
    if removed.contains id then Code.without removed rest
    else
      ⟨id, name, span, .function params (body.without removed) recursive⟩ ::
        Code.without removed rest
end

/-- Makes every operand name a value and takes out the copies that are then unused. A function that
is read through a copy would look like a function used as a value, so this comes before functions
are classified. -/
def Module.forward (module : Module) : Module :=
  let (entry, state) := (Forward.block module.entry).run { table := module.table }
  { entry := entry.without state.removed, table := state.table }

end MiddleEnd
