import MiddleEnd.Fault
import MiddleEnd.Ty.Links

/-! The variables of type inference and what is known about them. -/

namespace MiddleEnd

structure Store where
  cells : Cells
  acyclic : cells.Acyclic

namespace Store

def empty : Store := ⟨#[], Cells.acyclic_empty⟩

def size (store : Store) : Nat := store.cells.size

def fresh (store : Store) (level : Nat) : Store × Ty :=
  (⟨store.cells.push ⟨none, level, false⟩,
    store.acyclic.of_link? (by simp) (Cells.link?_push store.cells level)⟩, .var store.size)

def link? (store : Store) (number : Nat) : Option Ty := store.cells.link? number

def level (store : Store) (number : Nat) : Nat :=
  (store.cells[number]?.map TyVar.level).getD 0

def isGeneralized (store : Store) (number : Nat) : Bool :=
  (store.cells[number]?.map TyVar.generalized).getD false

def modify (store : Store) (number : Nat) (change : TyVar → TyVar)
    (kept : ∀ cell, (change cell).link = cell.link) : Store :=
  ⟨store.cells.modify number change,
    store.acyclic.of_link? (by simp)
      (fun other => Cells.link?_modify_of_link store.cells number other change kept)⟩

def lower (store : Store) (number level : Nat) : Store :=
  store.modify number (fun cell => { cell with level := min cell.level level }) (fun _ => rfl)

def freeze (store : Store) (number : Nat) : Store :=
  store.modify number (fun cell => { cell with generalized := true }) (fun _ => rfl)

def Avoids (store : Store) (type : Ty) (number : Nat) : Prop :=
  ∀ next ∈ type.vars, next < store.size ∧ ¬ store.cells.Reaches next number

def setLink (store : Store) (number : Nat) (type : Ty) (avoids : store.Avoids type number) :
    Store :=
  ⟨store.cells.modify number (fun cell => { cell with link := some type }),
    store.acyclic.link (fun next member => (avoids next member).1)
      (fun next member => (avoids next member).2)⟩

theorem avoids_unit (store : Store) (number : Nat) : store.Avoids .unit number :=
  fun _ member => by
    rw [Ty.unit, Ty.vars] at member
    exact absurd member List.not_mem_nil

def missing? (store : Store) (type : Ty) : Option Nat :=
  type.vars.find? (fun number => store.size ≤ number)

def check (store : Store) (type : Ty) : Except Fault Unit :=
  match store.missing? type with
  | some number => throw (.missingVariable number)
  | none => pure ()

def chase (store : Store) : Nat → Ty → Ty
  | 0, type => type
  | fuel + 1, .var number =>
    match store.link? number with
    | some type => store.chase fuel type
    | none => .var number
  | _ + 1, type => type

/-- Follows links until the type is no linked variable. A chain of links meets no variable twice,
so as many steps as there are variables suffice. -/
def resolve (store : Store) (type : Ty) : Ty := store.chase (store.size + 1) type

def expandWithin (store : Store) : Nat → Ty → Ty
  | 0, type => type
  | fuel + 1, type =>
    type.substVars fun number =>
      match store.link? number with
      | some target => store.expandWithin fuel target
      | none => .var number

def expand (store : Store) (type : Ty) : Ty := store.expandWithin (store.size + 1) type

def resolveChecked (store : Store) : Ty → Except Fault Ty
  | .var number => do
    store.check (.var number)
    return store.resolve (.var number)
  | type => return type

def expandChecked (store : Store) (type : Ty) : Except Fault Ty := do
  store.check type
  return store.expand type

def display (store : Store) (type : Ty) : String := (store.expand type).print

def displayChecked (store : Store) (type : Ty) : Except Fault String := do
  store.check type
  return store.display type

def generalize (store : Store) (level : Nat) (type : Ty) : Store × Ty :=
  let type := store.expand type
  let deeper (number : Nat) : Bool := level < store.level number
  ((type.vars.filter deeper).foldl freeze store,
    type.substVars (fun number => if deeper number then .generic number else .var number))

def freshFor (store : Store) (level : Nat) : List Nat → Store × List (Nat × Ty)
  | [] => (store, [])
  | number :: numbers =>
    let (store, type) := store.fresh level
    let (store, mapping) := store.freshFor level numbers
    (store, (number, type) :: mapping)

def instantiate (store : Store) (level : Nat) (scheme : Ty) : Store × Ty × List (Nat × Ty) :=
  let (store, mapping) := store.freshFor level scheme.generics.eraseDups
  (store, scheme.substGenerics (fun number => (mapping.lookup number).getD (.generic number)),
    mapping)

/-- The final form of a type: no links, and a placeholder for each generalized variable. `none` if
another variable is left. -/
def close? (store : Store) (type : Ty) : Option Ty :=
  let type := store.expand type
  if type.vars.all store.isGeneralized then some (type.substVars .generic) else none

def defaultVariable (store : Store) (number : Nat) : Store :=
  if (store.link? number).isNone && !store.isGeneralized number then
    store.setLink number .unit (store.avoids_unit number)
  else store

def defaultToUnit (store : Store) (type : Ty) : Store :=
  (store.expand type).vars.foldl defaultVariable store

end Store

end MiddleEnd
