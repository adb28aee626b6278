import MiddleEnd.Code.Block
import MiddleEnd.Fault

/-! Blocks that can be edited in place. All instructions stand in one array; those of a block are
linked in both directions between two sentinels. -/

namespace MiddleEnd

/-- A block of an arena, given by its upper sentinel. The lower one stands next to it in the
array. -/
structure BlockRef where
  name : String
  top : Nat

def BlockRef.bottom (block : BlockRef) : Nat := block.top + 1

structure Cell where
  name : String
  value : Value BlockRef
  span : Span
  previous : Option Nat := none
  next : Option Nat := none

structure Arena where
  cells : Array Cell := #[]

namespace Arena

def empty : Arena := ⟨#[]⟩

def size (arena : Arena) : Nat := arena.cells.size

def get (arena : Arena) (id : Nat) : Except Fault Cell :=
  match arena.cells[id]? with
  | some cell => return cell
  | none => throw (.missingInstruction id)

def modify (arena : Arena) (id : Nat) (change : Cell → Cell) : Arena :=
  ⟨arena.cells.modify id change⟩

def setNext (arena : Arena) (id : Nat) (next : Option Nat) : Arena :=
  arena.modify id fun cell => { cell with next }

def setPrevious (arena : Arena) (id : Nat) (previous : Option Nat) : Arena :=
  arena.modify id fun cell => { cell with previous }

def setValue (arena : Arena) (id : Nat) (value : Value BlockRef) : Arena :=
  arena.modify id fun cell => { cell with value }

def join (arena : Arena) (upper lower : Nat) : Arena :=
  (arena.setNext upper (some lower)).setPrevious lower (some upper)

def sentinel : Cell := { name := "", value := .op .nop, span := default }

def newBlock (arena : Arena) (name : String) : Arena × BlockRef :=
  let top := arena.size
  let arena : Arena := ⟨(arena.cells.push sentinel).push sentinel⟩
  (arena.join top (top + 1), ⟨name, top⟩)

def insert (arena : Arena) (upper lower : Nat) (name : String) (value : Value BlockRef)
    (span : Span) : Arena × Nat :=
  let id := arena.size
  let arena : Arena := ⟨arena.cells.push { name, value, span }⟩
  ((arena.join upper id).join id lower, id)

def append (arena : Arena) (block : BlockRef) (name : String) (value : Value BlockRef)
    (span : Span) : Except Fault (Arena × Nat) := do
  match (← arena.get block.bottom).previous with
  | some last => return arena.insert last block.bottom name value span
  | none => throw (.detached block.name)

def prepend (arena : Arena) (block : BlockRef) (name : String) (value : Value BlockRef)
    (span : Span) : Except Fault (Arena × Nat) := do
  match (← arena.get block.top).next with
  | some first => return arena.insert block.top first name value span
  | none => throw (.detached block.name)

def isolate (arena : Arena) (id : Nat) : Arena :=
  arena.modify id fun cell => { cell with previous := none, next := none }

def remove (arena : Arena) (id : Nat) : Except Fault Arena := do
  let cell ← arena.get id
  match cell.previous, cell.next with
  | some upper, some lower => return (arena.join upper lower).isolate id
  | _, _ => throw (.unlinked cell.name)

def isLinked (arena : Arena) (id : Nat) : Bool :=
  (arena.cells[id]?.bind Cell.previous).isSome

def next? (arena : Arena) (id : Nat) : Option Nat := do
  let lower ← (← arena.cells[id]?).next
  let _ ← (← arena.cells[lower]?).next
  return lower

def previous? (arena : Arena) (id : Nat) : Option Nat := do
  let upper ← (← arena.cells[id]?).previous
  let _ ← (← arena.cells[upper]?).previous
  return upper

def first? (arena : Arena) (block : BlockRef) : Option Nat := arena.next? block.top

def last? (arena : Arena) (block : BlockRef) : Option Nat := arena.previous? block.bottom

def idsFrom (arena : Arena) : Nat → Option Nat → List Nat
  | 0, _ => []
  | _ + 1, none => []
  | fuel + 1, some id => id :: arena.idsFrom fuel (arena.next? id)

def ids (arena : Arena) (block : BlockRef) : List Nat :=
  arena.idsFrom arena.size (arena.first? block)

def names (arena : Arena) (block : BlockRef) : List String :=
  (arena.ids block).filterMap fun id => (arena.cells[id]?).map Cell.name

def mapAll {α γ : Type} (step : α → Except Fault γ) : List α → Except Fault (List γ)
  | [] => return []
  | first :: rest => do
    let first ← step first
    return first :: (← mapAll step rest)

def readInstr (arena : Arena) (inner : BlockRef → Except Fault Block) (id : Nat) :
    Except Fault (Instr Block) := do
  let cell ← arena.get id
  match cell.value with
  | .op op => return ⟨id, cell.name, cell.span, .op op⟩
  | .branch test yes no =>
    let yes ← inner yes
    return ⟨id, cell.name, cell.span, .branch test yes (← inner no)⟩
  | .function params body recursive =>
    return ⟨id, cell.name, cell.span, .function params (← inner body) recursive⟩

def readWithin (arena : Arena) : Nat → BlockRef → Except Fault Block
  | 0, block => throw (.selfNested block.name)
  | fuel + 1, block =>
    return .mk block.name (← mapAll (arena.readInstr (arena.readWithin fuel)) (arena.ids block))

/-- The block as a tree. Blocks do not contain themselves, so they are nested less often than there
are instructions. -/
def read (arena : Arena) (block : BlockRef) : Except Fault Block :=
  arena.readWithin (arena.size + 1) block

end Arena

end MiddleEnd
