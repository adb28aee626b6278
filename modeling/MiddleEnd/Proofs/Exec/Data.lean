import Mathlib.Data.List.Forall2
import MiddleEnd.Literal

/-! Values at run time, over any representation of functions. Two values that differ only in how their
functions are represented are two views of one value. -/

namespace MiddleEnd

open List

inductive Data (F : Type) where
  | lit (value : Literal)
  | tuple (elements : List (Data F))
  | array (base size : Nat)
  | some (element : Data F)
  | none
  | external (name : String)
  | function (code : F)

namespace Data

variable {F G H : Type}

@[elab_as_elim, induction_eliminator]
theorem induction {motive : Data F → Prop} (lit : ∀ value, motive (.lit value))
    (tuple : ∀ elements, (∀ element ∈ elements, motive element) → motive (.tuple elements))
    (array : ∀ base size, motive (.array base size))
    (some : ∀ element, motive element → motive (.some element)) (none : motive .none)
    (external : ∀ name, motive (.external name)) (function : ∀ code, motive (.function code))
    (data : Data F) : motive data :=
  Data.rec lit tuple array some none external function (fun _ mem => nomatch mem)
    (fun _ _ first_holds rest_holds data mem => by
      rcases mem_cons.mp mem with rfl | mem
      · exact first_holds
      · exact rest_holds data mem) data

mutual
/-- Changes the representation of functions. -/
def map (change : F → G) : Data F → Data G
  | .lit value => .lit value
  | .tuple elements => .tuple (mapAll change elements)
  | .array base size => .array base size
  | .some element => .some (map change element)
  | .none => .none
  | .external name => .external name
  | .function code => .function (change code)
def mapAll (change : F → G) : List (Data F) → List (Data G)
  | [] => []
  | first :: rest => map change first :: mapAll change rest
end

theorem mapAll_eq (change : F → G) (elements : List (Data F)) :
    mapAll change elements = elements.map (map change) := by
  induction elements with
  | nil => rfl
  | cons _ _ ih => rw [mapAll, ih, map_cons]

theorem map_tuple (change : F → G) (elements : List (Data F)) :
    map change (.tuple elements) = .tuple (elements.map (map change)) := by
  rw [map, mapAll_eq]

theorem map_map (second : G → H) (first : F → G) (data : Data F) :
    map second (map first data) = map (second ∘ first) data := by
  induction data with
  | tuple _ ih =>
    rw [map_tuple, map_tuple, map_tuple, List.map_map]
    exact congrArg _ (map_congr_left ih)
  | some _ ih => rw [map, map, map, ih]
  | _ => rfl

def seen : Data F → Data Unit := map fun _ => ()

theorem seen_map (change : F → G) (data : Data F) : (map change data).seen = data.seen :=
  map_map _ change data

inductive Rel (related : F → G → Prop) : Data F → Data G → Prop
  | lit (value : Literal) : Rel related (.lit value) (.lit value)
  | tuple {elements : List (Data F)} {elements' : List (Data G)}
    (each : List.Forall₂ (Rel related) elements elements') :
    Rel related (.tuple elements) (.tuple elements')
  | array (base size : Nat) : Rel related (.array base size) (.array base size)
  | some {element : Data F} {element' : Data G} (inner : Rel related element element') :
    Rel related (.some element) (.some element')
  | none : Rel related .none .none
  | external (name : String) : Rel related (.external name) (.external name)
  | function {code : F} {code' : G} (codes : related code code') :
    Rel related (.function code) (.function code')

variable {related : F → G → Prop}

abbrev Pair (related : F → G → Prop) : Type := { pair : F × G // related pair.1 pair.2 }

def Pair.left (pair : Pair related) : F := pair.1.1
def Pair.right (pair : Pair related) : G := pair.1.2

theorem rel_views (data : Data (Pair related)) :
    Rel related (data.map Pair.left) (data.map Pair.right) := by
  induction data with
  | lit value => exact .lit value
  | tuple _ ih =>
    rw [map_tuple, map_tuple]
    refine .tuple ?_
    rw [forall₂_map_left_iff, forall₂_map_right_iff, forall₂_same]
    exact ih
  | array base size => exact .array base size
  | some _ ih => exact .some ih
  | none => exact .none
  | external name => exact .external name
  | function pair => exact .function pair.2

theorem exists_views_of_forall {values : List (Data F)} {values' : List (Data G)}
    (each : Forall₂ (Rel related) values values')
    (views : ∀ data ∈ values, ∀ data', Rel related data data' → ∃ both : Data (Pair related),
      both.map Pair.left = data ∧ both.map Pair.right = data') :
    ∃ both : List (Data (Pair related)),
      both.map (map Pair.left) = values ∧ both.map (map Pair.right) = values' := by
  induction each with
  | nil => exact ⟨[], rfl, rfl⟩
  | cons first _ ih =>
    obtain ⟨both, rfl, rfl⟩ := views _ (.head _) _ first
    obtain ⟨rest, rfl, rfl⟩ := ih fun data mem => views data (.tail _ mem)
    exact ⟨both :: rest, rfl, rfl⟩

theorem Rel.exists_views {data : Data F} {data' : Data G} (rel : Rel related data data') :
    ∃ both : Data (Pair related), both.map Pair.left = data ∧ both.map Pair.right = data' := by
  induction data generalizing data' with
  | lit value =>
    cases rel
    exact ⟨.lit value, rfl, rfl⟩
  | tuple _ ih =>
    obtain _ | each := rel
    obtain ⟨both, rfl, rfl⟩ := exists_views_of_forall each fun data mem _ => ih data mem
    exact ⟨.tuple both, map_tuple .., map_tuple ..⟩
  | array base size =>
    cases rel
    exact ⟨.array base size, rfl, rfl⟩
  | some _ ih =>
    obtain _ | _ | _ | inner := rel
    obtain ⟨both, rfl, rfl⟩ := ih inner
    exact ⟨.some both, rfl, rfl⟩
  | none =>
    cases rel
    exact ⟨.none, rfl, rfl⟩
  | external name =>
    cases rel
    exact ⟨.external name, rfl, rfl⟩
  | function _ =>
    obtain _ | _ | _ | _ | _ | _ | codes := rel
    exact ⟨.function ⟨(_, _), codes⟩, rfl, rfl⟩

theorem Rel.seen_eq {data : Data F} {data' : Data G} (rel : Rel related data data') :
    data.seen = data'.seen := by
  obtain ⟨_, rfl, rfl⟩ := rel.exists_views
  rw [seen_map, seen_map]

theorem exists_views {values : List (Data F)} {values' : List (Data G)}
    (each : Forall₂ (Rel related) values values') :
    ∃ both : List (Data (Pair related)),
      both.map (map Pair.left) = values ∧ both.map (map Pair.right) = values' :=
  exists_views_of_forall each fun _ _ _ rel => rel.exists_views

theorem forall_views (values : List (Data (Pair related))) :
    Forall₂ (Rel related) (values.map (map Pair.left)) (values.map (map Pair.right)) := by
  rw [forall₂_map_left_iff, forall₂_map_right_iff, forall₂_same]
  exact fun data _ => rel_views data

theorem seen_eq_of_forall {values : List (Data F)} {values' : List (Data G)}
    (each : Forall₂ (Rel related) values values') : values.map seen = values'.map seen := by
  induction each with
  | nil => rfl
  | cons first _ ih => rw [map_cons, map_cons, first.seen_eq, ih]

end Data

end MiddleEnd
