import MiddleEnd.Sort

/-! Names in order, and finite maps from names. -/

namespace MiddleEnd

def nameLe (first second : String) : Bool := !decide (second < first)

def sortNames (names : List String) : List String := sortBy nameLe names

def insertName (name : String) : List String → List String
  | [] => [name]
  | first :: rest =>
    if name = first then first :: rest
    else if nameLe name first then name :: first :: rest
    else first :: insertName name rest

def nameSet : List String → List String
  | [] => []
  | first :: rest => insertName first (nameSet rest)

@[simp] theorem mem_insertName {name other : String} {names : List String} :
    other ∈ insertName name names ↔ other = name ∨ other ∈ names := by
  induction names with
  | nil => simp [insertName]
  | cons first rest ih =>
    rw [insertName]
    split
    · next same => simp [same]
    · split
      · simp
      · simp only [List.mem_cons, ih]
        exact or_left_comm

@[simp] theorem mem_nameSet {name : String} {names : List String} :
    name ∈ nameSet names ↔ name ∈ names := by
  induction names with
  | nil => simp [nameSet]
  | cons first rest ih => simp [nameSet, ih]

/-- At most one value for a name. -/
structure NameMap (α : Type) where
  entries : List (String × α) := []

namespace NameMap

variable {α : Type}

def empty : NameMap α := ⟨[]⟩

instance : Inhabited (NameMap α) := ⟨empty⟩

def find? (map : NameMap α) (name : String) : Option α := map.entries.lookup name

def contains (map : NameMap α) (name : String) : Bool := (map.find? name).isSome

def erase (map : NameMap α) (name : String) : NameMap α :=
  ⟨map.entries.filter (fun entry => entry.1 != name)⟩

def insert (map : NameMap α) (name : String) (value : α) : NameMap α :=
  ⟨(name, value) :: (map.erase name).entries⟩

def size (map : NameMap α) : Nat := map.entries.length

def keys (map : NameMap α) : List String := map.entries.map Prod.fst

def ofList (entries : List (String × α)) : NameMap α :=
  entries.foldl (fun map entry => map.insert entry.1 entry.2) empty

def sorted (map : NameMap α) : List (String × α) :=
  sortBy (fun first second => nameLe first.1 second.1) map.entries

theorem lookup_filter_ne (entries : List (String × α)) (name other : String) :
    (entries.filter (fun entry => entry.1 != name)).lookup other =
      if other = name then none else entries.lookup other := by
  induction entries with
  | nil => simp
  | cons entry rest ih =>
    obtain ⟨key, value⟩ := entry
    by_cases same : other = key
    · subst same
      by_cases removed : other = name
      · simpa [removed] using ih
      · simp [removed]
    · have differs : (other == key) = false := by simp [same]
      by_cases removed : key = name
      · subst removed
        simpa [List.lookup_cons, differs, same] using ih
      · simpa [List.lookup_cons, differs, removed] using ih

@[simp] theorem find?_empty (name : String) : (empty : NameMap α).find? name = none := rfl

theorem find?_erase (map : NameMap α) (name other : String) :
    (map.erase name).find? other = if other = name then none else map.find? other :=
  lookup_filter_ne map.entries name other

theorem find?_insert (map : NameMap α) (name other : String) (value : α) :
    (map.insert name value).find? other = if other = name then some value else map.find? other := by
  by_cases same : other = name
  · subst same
    simp [insert, find?]
  · have differs : (other == name) = false := by simp [same]
    have erased := find?_erase map name other
    rw [if_neg same] at erased ⊢
    rw [← erased]
    simp [insert, find?, List.lookup_cons, differs]

end NameMap

end MiddleEnd
