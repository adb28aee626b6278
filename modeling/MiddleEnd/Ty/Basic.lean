import MiddleEnd.Literal

/-! Types of the language, with the variables of inference and the placeholders of type schemes. -/

namespace MiddleEnd

/-- Type names that are always in scope. -/
inductive Primitive where
  | unit
  | bool
  | int
  | float
  | string
  deriving DecidableEq, Repr

namespace Primitive

def name : Primitive → String
  | unit => "unit"
  | bool => "bool"
  | int => "int"
  | float => "float"
  | string => "string"

def label : Primitive → String
  | unit => "Unit"
  | bool => "Bool"
  | int => "Int"
  | float => "Float"
  | string => "String"

def all : List Primitive := [unit, bool, int, float, string]

def ofName? (name : String) : Option Primitive := all.find? (fun type => type.name == name)

end Primitive

/-- Type constructors of one argument. -/
inductive Constructor where
  | array
  | option
  deriving DecidableEq, Repr

namespace Constructor

def name : Constructor → String
  | array => "array"
  | option => "option"

def label : Constructor → String
  | array => "Array"
  | option => "Option"

def all : List Constructor := [array, option]

def ofName? (name : String) : Option Constructor := all.find? (fun con => con.name == name)

end Constructor

/-- Functions take all their parameters at once. A `var` may be linked to another type; a `generic`
stands for the variable of the same number in the type scheme of a binding. -/
inductive Ty where
  | prim (primitive : Primitive)
  | function (params : List Ty) (result : Ty)
  | tuple (elements : List Ty)
  | app (constructor : Constructor) (element : Ty)
  | var (number : Nat)
  | generic (number : Nat)
  deriving Repr

namespace Ty

def unit : Ty := .prim .unit
def bool : Ty := .prim .bool
def int : Ty := .prim .int
def float : Ty := .prim .float
def string : Ty := .prim .string
def array (element : Ty) : Ty := .app .array element
def option (element : Ty) : Ty := .app .option element

instance : Inhabited Ty := ⟨unit⟩

mutual
def same : Ty → Ty → Bool
  | .prim first, .prim second => first == second
  | .function params result, .function params' result' =>
    sameAll params params' && same result result'
  | .tuple elements, .tuple elements' => sameAll elements elements'
  | .app con element, .app con' element' => con == con' && same element element'
  | .var number, .var number' => number == number'
  | .generic number, .generic number' => number == number'
  | _, _ => false
def sameAll : List Ty → List Ty → Bool
  | [], [] => true
  | type :: types, type' :: types' => same type type' && sameAll types types'
  | _, _ => false
end

mutual
theorem eq_of_same : (type type' : Ty) → same type type' = true → type = type'
  | .prim _, type', h => by
    cases type' <;> simp_all [same]
  | .function params result, type', h => by
    cases type' with
    | function params' result' =>
      simp only [same, Bool.and_eq_true] at h
      rw [eq_of_sameAll params params' h.1, eq_of_same result result' h.2]
    | _ => simp [same] at h
  | .tuple elements, type', h => by
    cases type' with
    | tuple elements' => rw [eq_of_sameAll elements elements' (by simpa [same] using h)]
    | _ => simp [same] at h
  | .app con element, type', h => by
    cases type' with
    | app con' element' =>
      simp only [same, Bool.and_eq_true, beq_iff_eq] at h
      rw [h.1, eq_of_same element element' h.2]
    | _ => simp [same] at h
  | .var _, type', h => by
    cases type' <;> simp_all [same]
  | .generic _, type', h => by
    cases type' <;> simp_all [same]
theorem eq_of_sameAll : (types types' : List Ty) → sameAll types types' = true → types = types'
  | [], types', h => by
    cases types' <;> simp_all [sameAll]
  | type :: types, types', h => by
    cases types' with
    | nil => simp [sameAll] at h
    | cons type' types' =>
      simp only [sameAll, Bool.and_eq_true] at h
      rw [eq_of_same type type' h.1, eq_of_sameAll types types' h.2]
end

mutual
theorem same_self : (type : Ty) → same type type = true
  | .prim _ => by simp [same]
  | .function params result => by simp [same, sameAll_self params, same_self result]
  | .tuple elements => by simp [same, sameAll_self elements]
  | .app _ element => by simp [same, same_self element]
  | .var _ => by simp [same]
  | .generic _ => by simp [same]
theorem sameAll_self : (types : List Ty) → sameAll types types = true
  | [] => by simp [sameAll]
  | type :: types => by simp [sameAll, same_self type, sameAll_self types]
end

theorem same_iff {type type' : Ty} : same type type' = true ↔ type = type' :=
  ⟨eq_of_same type type', fun h => h ▸ same_self type⟩

instance : DecidableEq Ty := fun _ _ => decidable_of_iff _ same_iff

def children : Ty → List Ty
  | .function params result => params ++ [result]
  | .tuple elements => elements
  | .app _ element => [element]
  | _ => []

def mapChildren (change : Ty → Ty) : Ty → Ty
  | .function params result => .function (params.map change) (change result)
  | .tuple elements => .tuple (elements.map change)
  | .app con element => .app con (change element)
  | type => type

mutual
def any (test : Ty → Bool) : Ty → Bool
  | .function params result =>
    test (.function params result) || (anyOf test params || any test result)
  | .tuple elements => test (.tuple elements) || anyOf test elements
  | .app con element => test (.app con element) || any test element
  | type => test type
def anyOf (test : Ty → Bool) : List Ty → Bool
  | [] => false
  | type :: types => any test type || anyOf test types
end

mutual
def vars : Ty → List Nat
  | .prim _ => []
  | .function params result => varsOf params ++ vars result
  | .tuple elements => varsOf elements
  | .app _ element => vars element
  | .var number => [number]
  | .generic _ => []
def varsOf : List Ty → List Nat
  | [] => []
  | type :: types => vars type ++ varsOf types
end

mutual
def generics : Ty → List Nat
  | .prim _ => []
  | .function params result => genericsOf params ++ generics result
  | .tuple elements => genericsOf elements
  | .app _ element => generics element
  | .var _ => []
  | .generic number => [number]
def genericsOf : List Ty → List Nat
  | [] => []
  | type :: types => generics type ++ genericsOf types
end

mutual
def subst (var generic : Nat → Ty) : Ty → Ty
  | .prim primitive => .prim primitive
  | .function params result => .function (substAll var generic params) (subst var generic result)
  | .tuple elements => .tuple (substAll var generic elements)
  | .app con element => .app con (subst var generic element)
  | .var number => var number
  | .generic number => generic number
def substAll (var generic : Nat → Ty) : List Ty → List Ty
  | [] => []
  | type :: types => subst var generic type :: substAll var generic types
end

def substVars (var : Nat → Ty) (type : Ty) : Ty := type.subst var .generic

def substGenerics (generic : Nat → Ty) (type : Ty) : Ty := type.subst .var generic

mutual
def height : Ty → Nat
  | .function params result => max (heightOf params) (height result) + 1
  | .tuple elements => heightOf elements + 1
  | .app _ element => height element + 1
  | _ => 0
def heightOf : List Ty → Nat
  | [] => 0
  | type :: types => max (height type) (heightOf types)
end

def isPolymorphic (type : Ty) : Bool := !type.generics.isEmpty

end Ty

def Literal.ty : Literal → Ty
  | .unit => .unit
  | .bool _ => .bool
  | .int _ => .int
  | .float _ => .float
  | .string _ => .string

end MiddleEnd
