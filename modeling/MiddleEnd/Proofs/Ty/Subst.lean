import MiddleEnd.Ty.Basic

/-! Types as terms: induction, and how substitution acts on variables and placeholders. -/

namespace MiddleEnd.Ty

open List

variable {var generic : Nat → Ty} {type : Ty} {n : Nat}

@[elab_as_elim, induction_eliminator]
theorem induction {motive : Ty → Prop} (prim : ∀ primitive, motive (.prim primitive))
    (function : ∀ params result, (∀ param ∈ params, motive param) → motive result →
      motive (.function params result))
    (tuple : ∀ elements, (∀ element ∈ elements, motive element) → motive (.tuple elements))
    (app : ∀ con element, motive element → motive (.app con element))
    (var : ∀ n, motive (.var n)) (generic : ∀ n, motive (.generic n))
    (type : Ty) : motive type :=
  Ty.rec prim function tuple app var generic (fun _ mem => nomatch mem)
    (fun _ _ first_holds rest_holds type mem => by
      rcases mem_cons.mp mem with rfl | mem
      · exact first_holds
      · exact rest_holds type mem) type

theorem varsOf_eq (types : List Ty) : varsOf types = types.flatMap vars := by
  induction types with
  | nil => rfl
  | cons _ _ ih => rw [varsOf, ih, flatMap_cons]

theorem genericsOf_eq (types : List Ty) : genericsOf types = types.flatMap generics := by
  induction types with
  | nil => rfl
  | cons _ _ ih => rw [genericsOf, ih, flatMap_cons]

theorem substAll_eq (var generic : Nat → Ty) (types : List Ty) :
    substAll var generic types = types.map (subst var generic) := by
  induction types with
  | nil => rfl
  | cons _ _ ih => rw [substAll, ih, map_cons]

@[simp] theorem vars_prim (primitive : Primitive) : (Ty.prim primitive).vars = [] := rfl

@[simp] theorem vars_function (params : List Ty) (result : Ty) :
    (Ty.function params result).vars = params.flatMap vars ++ result.vars := by
  rw [vars, varsOf_eq]

@[simp] theorem vars_tuple (elements : List Ty) : (Ty.tuple elements).vars = elements.flatMap vars := by
  rw [vars, varsOf_eq]

@[simp] theorem vars_app (con : Constructor) (element : Ty) : (Ty.app con element).vars = element.vars :=
  rfl

@[simp] theorem vars_var (n : Nat) : (Ty.var n).vars = [n] := rfl

@[simp] theorem vars_generic (n : Nat) : (Ty.generic n).vars = [] := rfl

@[simp] theorem generics_prim (primitive : Primitive) : (Ty.prim primitive).generics = [] := rfl

@[simp] theorem generics_function (params : List Ty) (result : Ty) :
    (Ty.function params result).generics = params.flatMap generics ++ result.generics := by
  rw [generics, genericsOf_eq]

@[simp] theorem generics_tuple (elements : List Ty) :
    (Ty.tuple elements).generics = elements.flatMap generics := by
  rw [generics, genericsOf_eq]

@[simp] theorem generics_app (con : Constructor) (element : Ty) :
    (Ty.app con element).generics = element.generics :=
  rfl

@[simp] theorem generics_var (n : Nat) : (Ty.var n).generics = [] := rfl

@[simp] theorem generics_generic (n : Nat) : (Ty.generic n).generics = [n] := rfl

section

variable (var generic : Nat → Ty)

@[simp] theorem subst_prim (primitive : Primitive) :
    (Ty.prim primitive).subst var generic = .prim primitive := rfl

@[simp] theorem subst_function (params : List Ty) (result : Ty) :
    (Ty.function params result).subst var generic =
      .function (params.map (subst var generic)) (result.subst var generic) := by
  rw [subst, substAll_eq]

@[simp] theorem subst_tuple (elements : List Ty) :
    (Ty.tuple elements).subst var generic = .tuple (elements.map (subst var generic)) := by
  rw [subst, substAll_eq]

@[simp] theorem subst_app (con : Constructor) (element : Ty) :
    (Ty.app con element).subst var generic = .app con (element.subst var generic) := rfl

@[simp] theorem subst_var (n : Nat) : (Ty.var n).subst var generic = var n := rfl

@[simp] theorem subst_generic (n : Nat) : (Ty.generic n).subst var generic = generic n := rfl

end

/-! ### Laws of substitution -/

theorem subst_congr {var' generic' : Nat → Ty} (vars_agree : ∀ n ∈ type.vars, var n = var' n)
    (generics_agree : ∀ n ∈ type.generics, generic n = generic' n) :
    type.subst var generic = type.subst var' generic' := by
  induction type with
  | prim _ => rfl
  | function _ _ params_ih result_ih =>
    rw [subst_function, subst_function]
    congr 1
    · apply map_congr_left
      intro param mem
      exact params_ih param mem
        (fun n here => vars_agree n (by simp; exact .inl ⟨param, mem, here⟩))
        (fun n here => generics_agree n (by simp; exact .inl ⟨param, mem, here⟩))
    · exact result_ih (fun n here => vars_agree n (by simp [here]))
        (fun n here => generics_agree n (by simp [here]))
  | tuple _ ih =>
    rw [subst_tuple, subst_tuple]
    congr 1
    apply map_congr_left
    intro element mem
    exact ih element mem
      (fun n here => vars_agree n (by simp; exact ⟨element, mem, here⟩))
      (fun n here => generics_agree n (by simp; exact ⟨element, mem, here⟩))
  | app _ _ ih =>
    rw [subst_app, subst_app, ih vars_agree generics_agree]
  | var n => exact vars_agree n (by simp)
  | generic n => exact generics_agree n (by simp)

theorem subst_subst (type : Ty) (var generic var' generic' : Nat → Ty) :
    (type.subst var generic).subst var' generic' =
      type.subst (fun n => (var n).subst var' generic') (fun n => (generic n).subst var' generic') := by
  induction type with
  | prim _ => rfl
  | function _ _ params_ih result_ih =>
    simp only [subst_function, List.map_map, result_ih, Ty.function.injEq, and_true]
    exact map_congr_left params_ih
  | tuple _ ih =>
    simp only [subst_tuple, List.map_map, Ty.tuple.injEq]
    exact map_congr_left ih
  | app _ _ ih => simp only [subst_app, ih]
  | var _ => rfl
  | generic _ => rfl

@[simp] theorem subst_self (type : Ty) : type.subst .var .generic = type := by
  induction type with
  | prim _ => rfl
  | function _ _ params_ih result_ih =>
    rw [subst_function, result_ih, map_congr_left (g := id) params_ih, map_id]
  | tuple _ ih => rw [subst_tuple, map_congr_left (g := id) ih, map_id]
  | app _ _ ih => rw [subst_app, ih]
  | var _ => rfl
  | generic _ => rfl

theorem mem_vars_subst : n ∈ (type.subst var generic).vars ↔
      (∃ other ∈ type.vars, n ∈ (var other).vars) ∨
        ∃ other ∈ type.generics, n ∈ (generic other).vars := by
  induction type with
  | prim _ => simp
  | function _ _ params_ih result_ih =>
    simp only [subst_function, vars_function, generics_function, mem_append, mem_flatMap,
      mem_map, result_ih]
    grind
  | tuple _ ih =>
    simp only [subst_tuple, vars_tuple, generics_tuple, mem_flatMap, mem_map]
    grind
  | app _ _ ih => simpa using ih
  | var _ => simp
  | generic _ => simp

theorem mem_generics_subst : n ∈ (type.subst var generic).generics ↔
      (∃ other ∈ type.vars, n ∈ (var other).generics) ∨
        ∃ other ∈ type.generics, n ∈ (generic other).generics := by
  induction type with
  | prim _ => simp
  | function _ _ params_ih result_ih =>
    simp only [subst_function, vars_function, generics_function, mem_append, mem_flatMap,
      mem_map, result_ih]
    grind
  | tuple _ ih =>
    simp only [subst_tuple, vars_tuple, generics_tuple, mem_flatMap, mem_map]
    grind
  | app _ _ ih => simpa using ih
  | var _ => simp
  | generic _ => simp

/-! ### Outermost constructors -/

inductive Head where
  | prim (primitive : Primitive)
  | function
  | tuple
  | app (constructor : Constructor)
  | var (n : Nat)
  | generic (n : Nat)
  deriving DecidableEq

def head : Ty → Head
  | .prim primitive => .prim primitive
  | .function _ _ => .function
  | .tuple _ => .tuple
  | .app con _ => .app con
  | .var n => .var n
  | .generic n => .generic n

end MiddleEnd.Ty
