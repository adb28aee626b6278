/-! Values numbered in the order in which they were registered. -/

namespace MiddleEnd

/-- The number of a binding site. It has 32 bits, so numbers from 2 ^ 32 on wrap. -/
structure SymbolId where
  number : UInt32
  deriving DecidableEq, Repr

namespace SymbolId

def ofNat (number : Nat) : SymbolId := ⟨number.toUInt32⟩

def toNat (id : SymbolId) : Nat := id.number.toNat

def text (id : SymbolId) : String := s!"SymbolId({id.toNat})"

end SymbolId

structure Registry (α : Type) where
  items : Array α := #[]

namespace Registry

variable {α : Type}

def empty : Registry α := ⟨#[]⟩

def size (registry : Registry α) : Nat := registry.items.size

def next (registry : Registry α) : SymbolId := .ofNat registry.size

def push (registry : Registry α) (value : α) : Registry α × SymbolId :=
  (⟨registry.items.push value⟩, registry.next)

def get? (registry : Registry α) (id : SymbolId) : Option α := registry.items[id.toNat]?

def modify? (registry : Registry α) (id : SymbolId) (change : α → α) : Option (Registry α) :=
  if id.toNat < registry.size then some ⟨registry.items.modify id.toNat change⟩ else none

def ids (registry : Registry α) : List SymbolId :=
  (List.range registry.size).map .ofNat

def toList (registry : Registry α) : List α := registry.items.toList

def enumerate (registry : Registry α) : List (SymbolId × α) := registry.ids.zip registry.toList

def text (render : α → String) (registry : Registry α) : String :=
  let entries := registry.enumerate.map fun (id, value) => id.text ++ ": " ++ render value
  "\x7b" ++ ", ".intercalate entries ++ "\x7d"

end Registry

end MiddleEnd
