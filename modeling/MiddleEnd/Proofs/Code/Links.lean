import Mathlib.Data.List.Chain
import MiddleEnd.Code.Arena

/-! The links of an arena, and what each call does to them. -/

namespace MiddleEnd.Arena

variable {change : Cell → Cell} {link : Option Nat} {last first : Nat}

def data (arena : Arena) (id : Nat) : Option (String × Value BlockRef × Span) :=
  arena.cells[id]?.map fun cell => (cell.name, cell.value, cell.span)

/-- The links as they stand, to sentinels too. -/
def lower (arena : Arena) (id : Nat) : Option Nat := arena.cells[id]?.bind Cell.next

def upper (arena : Arena) (id : Nat) : Option Nat := arena.cells[id]?.bind Cell.previous

def Joined (arena : Arena) (above below : Nat) : Prop :=
  arena.lower above = some below ∧ arena.upper below = some above

variable {arena : Arena}

theorem exists_cell {id : Nat} (bound : id < arena.size) : ∃ cell, arena.cells[id]? = some cell :=
  ⟨_, Array.getElem?_eq_getElem bound⟩

theorem getElem?_modify (id other : Nat) (change : Cell → Cell) :
    (arena.modify id change).cells[other]? =
      if other = id then arena.cells[other]?.map change else arena.cells[other]? := by
  simp only [modify, Array.getElem?_modify, eq_comm]

theorem lower_modify (id other : Nat) (next : ∀ cell, (change cell).next = link)
    (bound : id < arena.size) :
    (arena.modify id change).lower other = if other = id then link else arena.lower other := by
  obtain ⟨cell, found⟩ := exists_cell bound
  rw [lower, getElem?_modify]
  split
  · next same => rw [same, found, Option.map_some, Option.bind_some, next]
  · rfl

theorem upper_modify (id other : Nat) (previous : ∀ cell, (change cell).previous = link)
    (bound : id < arena.size) :
    (arena.modify id change).upper other = if other = id then link else arena.upper other := by
  obtain ⟨cell, found⟩ := exists_cell bound
  rw [upper, getElem?_modify]
  split
  · next same => rw [same, found, Option.map_some, Option.bind_some, previous]
  · rfl

theorem lower_modify_same (id other : Nat) (next : ∀ cell, (change cell).next = cell.next) :
    (arena.modify id change).lower other = arena.lower other := by
  rw [lower, getElem?_modify, lower]
  split
  · cases arena.cells[other]? <;> simp [next]
  · rfl

theorem upper_modify_same (id other : Nat) (previous : ∀ cell, (change cell).previous = cell.previous) :
    (arena.modify id change).upper other = arena.upper other := by
  rw [upper, getElem?_modify, upper]
  split
  · cases arena.cells[other]? <;> simp [previous]
  · rfl

theorem data_modify (id other : Nat)
    (same : ∀ cell, (change cell).name = cell.name ∧ (change cell).value = cell.value ∧
      (change cell).span = cell.span) : (arena.modify id change).data other = arena.data other := by
  rw [data, getElem?_modify, data]
  split
  · simp [Function.comp_def, same]
  · rfl

@[simp] theorem size_modify (id : Nat) (change : Cell → Cell) :
    (arena.modify id change).size = arena.size := by
  simp [size, modify]

section join

variable {above below : Nat}

@[simp] theorem size_join (above below : Nat) : (arena.join above below).size = arena.size := by
  simp [join, setNext, setPrevious]

theorem lower_join (bound : above < arena.size) (id : Nat) :
    (arena.join above below).lower id = if id = above then some below else arena.lower id :=
  calc (arena.join above below).lower id
      = (arena.setNext above (some below)).lower id := lower_modify_same _ _ fun _ => rfl
    _ = if id = above then some below else arena.lower id := lower_modify _ _ (fun _ => rfl) bound

theorem upper_join (bound : below < arena.size) (id : Nat) :
    (arena.join above below).upper id = if id = below then some above else arena.upper id := by
  have same : (arena.setNext above (some below)).upper id = arena.upper id :=
    upper_modify_same _ _ fun _ => rfl
  rw [← same]
  exact upper_modify _ _ (fun _ => rfl) (by simpa [setNext] using bound)

@[simp] theorem data_join (id : Nat) : (arena.join above below).data id = arena.data id := by
  rw [join, setPrevious, data_modify, setNext, data_modify]
  · exact fun _ => ⟨rfl, rfl, rfl⟩
  · exact fun _ => ⟨rfl, rfl, rfl⟩

end join

/-! ### What the calls do to the links -/

def push (arena : Arena) (cell : Cell) : Arena := ⟨arena.cells.push cell⟩

@[simp] theorem size_push (cell : Cell) : (arena.push cell).size = arena.size + 1 := by
  simp [push, size]

theorem getElem?_push (cell : Cell) (id : Nat) :
    (arena.push cell).cells[id]? = if id = arena.size then some cell else arena.cells[id]? :=
  Array.getElem?_push

theorem lower_push (cell : Cell) (id : Nat) :
    (arena.push cell).lower id = if id = arena.size then cell.next else arena.lower id := by
  rw [lower, getElem?_push]
  split <;> rfl

theorem upper_push (cell : Cell) (id : Nat) :
    (arena.push cell).upper id = if id = arena.size then cell.previous else arena.upper id := by
  rw [upper, getElem?_push]
  split <;> rfl

theorem data_push (cell : Cell) (id : Nat) : (arena.push cell).data id =
    if id = arena.size then some (cell.name, cell.value, cell.span) else arena.data id := by
  rw [data, getElem?_push]
  split <;> rfl

section insert

variable (above below : Nat) (name : String) (value : Value BlockRef) (span : Span)

theorem insert_eq :
    arena.insert above below name value span =
      (((arena.push { name, value, span }).join above arena.size).join arena.size below, arena.size) :=
  rfl

theorem size_insert : (arena.insert above below name value span).1.size = arena.size + 1 := by
  simp [insert_eq]

theorem lower_insert {above : Nat} (above_bound : above < arena.size) (id : Nat) :
    (arena.insert above below name value span).1.lower id =
      if id = arena.size then some below else if id = above then some arena.size else arena.lower id := by
  rw [insert_eq, lower_join (by simp), lower_join (by simp; omega), lower_push]
  split_ifs <;> rfl

theorem upper_insert {below : Nat} (below_bound : below < arena.size) (id : Nat) :
    (arena.insert above below name value span).1.upper id =
      if id = below then some arena.size else if id = arena.size then some above else arena.upper id := by
  rw [insert_eq, upper_join (by simp; omega), upper_join (by simp), upper_push]
  split_ifs <;> rfl

theorem data_insert (id : Nat) : (arena.insert above below name value span).1.data id =
    if id = arena.size then some (name, value, span) else arena.data id := by
  rw [insert_eq, data_join, data_join, data_push]

end insert

theorem newBlock_eq (arena : Arena) (name : String) : arena.newBlock name =
    (((arena.push sentinel).push sentinel).join arena.size (arena.size + 1), ⟨name, arena.size⟩) :=
  rfl

theorem lower_newBlock (name : String) (id : Nat) : (arena.newBlock name).1.lower id =
    if id = arena.size then some (arena.size + 1) else if id = arena.size + 1 then none
    else arena.lower id := by
  rw [newBlock_eq, lower_join (by rw [size_push, size_push]; omega), lower_push, lower_push, size_push]
  split_ifs <;> rfl

theorem upper_newBlock (name : String) (id : Nat) : (arena.newBlock name).1.upper id =
    if id = arena.size + 1 then some arena.size else if id = arena.size then none
    else arena.upper id := by
  rw [newBlock_eq, upper_join (by simp), upper_push, upper_push, size_push]
  split_ifs <;> rfl

theorem data_newBlock (name : String) {id : Nat} (bound : id < arena.size) :
    (arena.newBlock name).1.data id = arena.data id := by
  rw [newBlock_eq, data_join, data_push, data_push, size_push, if_neg (by omega), if_neg (by omega)]

theorem size_newBlock (name : String) : (arena.newBlock name).1.size = arena.size + 2 := by
  simp [newBlock_eq]

def unlink (arena : Arena) (above id below : Nat) : Arena := (arena.join above below).isolate id

section unlink

variable (above below : Nat) {id : Nat}

@[simp] theorem size_unlink (id : Nat) : (arena.unlink above id below).size = arena.size := by
  simp [unlink, isolate]

theorem lower_unlink {above : Nat} (above_bound : above < arena.size) (bound : id < arena.size) (other : Nat) :
    (arena.unlink above id below).lower other =
      if other = id then none else if other = above then some below else arena.lower other := by
  rw [← lower_join above_bound]
  exact lower_modify _ _ (fun _ => rfl) (by simpa using bound)

theorem upper_unlink {below : Nat} (below_bound : below < arena.size) (bound : id < arena.size) (other : Nat) :
    (arena.unlink above id below).upper other =
      if other = id then none else if other = below then some above else arena.upper other := by
  rw [← upper_join below_bound]
  exact upper_modify _ _ (fun _ => rfl) (by simpa using bound)

theorem data_unlink (other : Nat) : (arena.unlink above id below).data other = arena.data other := by
  rw [unlink, isolate, data_modify, data_join]
  exact fun _ => ⟨rfl, rfl, rfl⟩

end unlink

/-! ### When the calls fail -/

theorem append_eq (block : BlockRef) (joined : arena.upper block.bottom = some last) (name : String)
    (value : Value BlockRef) (span : Span) :
    arena.append block name value span = .ok (arena.insert last block.bottom name value span) := by
  obtain ⟨_, found, previous⟩ := Option.bind_eq_some_iff.mp joined
  simp only [append, get, found, pure_bind, previous]
  rfl

theorem prepend_eq (block : BlockRef) (joined : arena.lower block.top = some first) (name : String)
    (value : Value BlockRef) (span : Span) :
    arena.prepend block name value span = .ok (arena.insert block.top first name value span) := by
  obtain ⟨_, found, next⟩ := Option.bind_eq_some_iff.mp joined
  simp only [prepend, get, found, pure_bind, next]
  rfl

theorem remove_eq {above id below : Nat} (upper : arena.upper id = some above)
    (lower : arena.lower id = some below) : arena.remove id = .ok (arena.unlink above id below) := by
  obtain ⟨_, found, previous⟩ := Option.bind_eq_some_iff.mp upper
  simp only [Arena.lower, found, Option.bind_some] at lower
  simp only [remove, get, found, pure_bind, previous, lower]
  rfl

theorem links_of_remove {later : Arena} {id : Nat} (removed : arena.remove id = .ok later) :
    arena.upper id ≠ none ∧ arena.lower id ≠ none := by
  cases found : arena.cells[id]? with
  | none =>
    simp only [remove, get, found] at removed
    cases removed
  | some _ =>
    simp only [remove, get, found, pure_bind] at removed
    simp only [upper, lower, found, Option.bind_some]
    split at removed
    · next previous next => simp [previous, next]
    · cases removed

theorem remove_loose {id : Nat} (loose : arena.upper id = none ∨ arena.lower id = none) {name : String}
    {value : Value BlockRef} {span : Span} (data : arena.data id = some (name, value, span)) :
    arena.remove id = .error (.unlinked name) := by
  obtain ⟨_, found, same⟩ := Option.map_eq_some_iff.mp data
  obtain ⟨rfl, _⟩ := Prod.mk.inj same
  simp only [upper, lower, found, Option.bind_some] at loose
  simp only [remove, get, found, pure_bind]
  split
  · next previous next =>
    simp [previous, next] at loose
  · rfl

theorem next?_eq_some {id below : Nat} :
    arena.next? id = some below ↔ arena.lower id = some below ∧ arena.lower below ≠ none := by
  simp only [next?, lower, Option.bind_eq_bind, Option.bind_eq_some_iff, Option.pure_def,
    Option.some.injEq, ne_eq, Option.eq_none_iff_forall_ne_some, not_forall, not_not]
  grind

theorem previous?_eq_some {id above : Nat} :
    arena.previous? id = some above ↔ arena.upper id = some above ∧ arena.upper above ≠ none := by
  simp only [previous?, upper, Option.bind_eq_bind, Option.bind_eq_some_iff, Option.pure_def,
    Option.some.injEq, ne_eq, Option.eq_none_iff_forall_ne_some, not_forall, not_not]
  grind

/-! ### Chains -/

section chain

variable {later : Arena}

theorem isChain_of_same {nodes : List Nat} (chain : nodes.IsChain arena.Joined)
    (same : ∀ node ∈ nodes, later.lower node = arena.lower node ∧ later.upper node = arena.upper node) :
    nodes.IsChain later.Joined :=
  chain.imp_of_mem_imp fun above below above_in below_in joined =>
    ⟨(same above above_in).1.trans joined.1, (same below below_in).2.trans joined.2⟩

theorem isChain_front {front : List Nat} (chain : (front ++ [last]).IsChain arena.Joined)
    (leaves : ∀ node ∈ front ++ [last], arena.lower last ≠ some node)
    (lower : ∀ node ∈ front ++ [last], node ≠ last → later.lower node = arena.lower node)
    (upper : ∀ node ∈ front ++ [last], later.upper node = arena.upper node) :
    (front ++ [last]).IsChain later.Joined := by
  refine chain.imp_of_mem_imp fun above below above_in below_in joined => ?_
  have inner : above ≠ last := by
    rintro rfl
    exact leaves below below_in joined.1
  exact ⟨(lower above above_in inner).trans joined.1, (upper below below_in).trans joined.2⟩

theorem isChain_back {back : List Nat} (chain : (first :: back).IsChain arena.Joined)
    (enters : ∀ node ∈ first :: back, arena.upper first ≠ some node)
    (lower : ∀ node ∈ first :: back, later.lower node = arena.lower node)
    (upper : ∀ node ∈ first :: back, node ≠ first → later.upper node = arena.upper node) :
    (first :: back).IsChain later.Joined := by
  refine chain.imp_of_mem_imp fun above below above_in below_in joined => ?_
  have inner : below ≠ first := by
    rintro rfl
    exact enters above above_in joined.2
  exact ⟨(lower above above_in).trans joined.1, (upper below below_in inner).trans joined.2⟩

end chain

end MiddleEnd.Arena
