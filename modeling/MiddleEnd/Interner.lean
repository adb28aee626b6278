import MiddleEnd.NameMap

/-! A table that stores each string once and numbers the strings in the order of arrival. Many may
share a table: they look a string up together, and whoever has to add one holds the table alone. -/

namespace MiddleEnd

/-- The strings by number, and the number of each string. Numbers have 32 bits. -/
structure Interner where
  strings : Array String := #[]
  indices : NameMap UInt32 := .empty

namespace Interner

def empty : Interner := {}

def get? (table : Interner) (index : UInt32) : Option String := table.strings[index.toNat]?

def indexOf? (table : Interner) (string : String) : Option UInt32 := table.indices.find? string

/-- Adds a string that was not found. It is looked up once more, since another may have added it
before the table was free. -/
def add (table : Interner) (string : String) : Interner × UInt32 :=
  match table.indexOf? string with
  | some index => (table, index)
  | none =>
    let index := table.strings.size.toUInt32
    ({ strings := table.strings.push string, indices := table.indices.insert string index }, index)

def intern (table : Interner) (string : String) : Interner × UInt32 :=
  match table.indexOf? string with
  | some index => (table, index)
  | none => table.add string

def internAll (table : Interner) : List String → Interner × List UInt32
  | [] => (table, [])
  | string :: strings =>
    let (table, index) := table.intern string
    let (table, indices) := table.internAll strings
    (table, index :: indices)

end Interner

def wildcard : String := "_"

def isWildcard (name : String) : Bool := name == wildcard

end MiddleEnd
