import Mathlib.Data.List.Perm.Basic
import MiddleEnd.Tree.Walk

/-! Trees by their parts: induction, changes of what stands at the nodes, and scope. -/

namespace MiddleEnd

open List

variable {N R H A N' R' H' A' : Type} {motive : Expr N R H A → Prop}

namespace Expr

@[elab_as_elim, induction_eliminator]
theorem induction (lit : ∀ note value, motive (.lit note value))
    (var : ∀ note ref, motive (.var note ref))
    (unary : ∀ note op operand, motive operand → motive (.unary note op operand))
    (binary : ∀ note op lhs rhs, motive lhs → motive rhs → motive (.binary note op lhs rhs))
    (cond : ∀ note test yes no, motive test → motive yes → motive no →
      motive (.cond note test yes no)) (letIn : ∀ note binder bound body, motive bound → motive body →
      motive (.letIn note binder bound body))
    (letRec : ∀ note name params result body rest, motive body → motive rest →
      motive (.letRec note name params result body rest))
    (letTuple : ∀ note binders bound body, motive bound → motive body →
      motive (.letTuple note binders bound body))
    (apply : ∀ note callee args, motive callee → (∀ arg ∈ args, motive arg) →
      motive (.apply note callee args))
    (tuple : ∀ note elements, (∀ element ∈ elements, motive element) →
      motive (.tuple note elements)) (arrayMake : ∀ note size element, motive size → motive element →
      motive (.arrayMake note size element))
    (arrayLit : ∀ note elements, (∀ element ∈ elements, motive element) →
      motive (.arrayLit note elements))
    (arrayLen : ∀ note array, motive array → motive (.arrayLen note array))
    (arrayGet : ∀ note array index, motive array → motive index → motive (.arrayGet note array index))
    (arraySet : ∀ note array index value, motive array → motive index → motive value →
      motive (.arraySet note array index value))
    (some : ∀ note element, motive element → motive (.some note element))
    (none : ∀ note, motive (.none note))
    (matchOption : ∀ note target binder someArm noneArm, motive target → motive someArm →
      motive noneArm → motive (.matchOption note target binder someArm noneArm))
    (typed : ∀ note child hint, motive child → motive (.typed note child hint)) (expr : Expr N R H A) :
    motive expr :=
  Expr.rec lit var unary binary cond letIn letRec letTuple apply tuple arrayMake arrayLit arrayLen
    arrayGet arraySet some none matchOption typed (fun _ mem => nomatch mem)
    (fun _ rest first_holds rest_holds expr mem => by
      rcases mem_cons.mp mem with rfl | mem
      · exact first_holds
      · exact rest_holds expr mem) expr

mutual
/-- Changes what stands at the binders, variables, annotations and expressions. -/
def map (name : N → N') (ref : R → R') (hint : H → H') (note : A → A') :
    Expr N R H A → Expr N' R' H' A'
  | lit here value => .lit (note here) value
  | var here use => .var (note here) (ref use)
  | unary here op operand => .unary (note here) op (operand.map name ref hint note)
  | binary here op lhs rhs =>
    .binary (note here) op (lhs.map name ref hint note) (rhs.map name ref hint note)
  | cond here test yes no =>
    .cond (note here) (test.map name ref hint note) (yes.map name ref hint note)
      (no.map name ref hint note)
  | letIn here binder bound body =>
    .letIn (note here) ⟨name binder.name, binder.hint.map hint⟩ (bound.map name ref hint note)
      (body.map name ref hint note)
  | letRec here function params result body rest =>
    .letRec (note here) (name function)
      (params.map fun param => ⟨name param.name, param.hint.map hint⟩) (result.map hint)
      (body.map name ref hint note) (rest.map name ref hint note)
  | letTuple here binders bound body =>
    .letTuple (note here) (binders.map fun binder => ⟨name binder.name, binder.hint.map hint⟩)
      (bound.map name ref hint note) (body.map name ref hint note)
  | apply here callee args =>
    .apply (note here) (callee.map name ref hint note) (mapAll name ref hint note args)
  | tuple here elements => .tuple (note here) (mapAll name ref hint note elements)
  | arrayMake here size element =>
    .arrayMake (note here) (size.map name ref hint note) (element.map name ref hint note)
  | arrayLit here elements => .arrayLit (note here) (mapAll name ref hint note elements)
  | arrayLen here array => .arrayLen (note here) (array.map name ref hint note)
  | arrayGet here array index =>
    .arrayGet (note here) (array.map name ref hint note) (index.map name ref hint note)
  | arraySet here array index value =>
    .arraySet (note here) (array.map name ref hint note) (index.map name ref hint note)
      (value.map name ref hint note)
  | some here element => .some (note here) (element.map name ref hint note)
  | none here => .none (note here)
  | matchOption here target binder someArm noneArm =>
    .matchOption (note here) (target.map name ref hint note)
      ⟨name binder.name, binder.hint.map hint⟩ (someArm.map name ref hint note)
      (noneArm.map name ref hint note)
  | typed here child type => .typed (note here) (child.map name ref hint note) (hint type)
def mapAll (name : N → N') (ref : R → R') (hint : H → H') (note : A → A') :
    List (Expr N R H A) → List (Expr N' R' H' A')
  | [] => []
  | expr :: exprs => expr.map name ref hint note :: mapAll name ref hint note exprs
end

@[simp] theorem mapAll_eq (name : N → N') (ref : R → R') (hint : H → H') (note : A → A')
    (exprs : List (Expr N R H A)) :
    mapAll name ref hint note exprs = exprs.map (map name ref hint note) := by
  induction exprs with
  | nil => rfl
  | cons _ _ ih => rw [mapAll, ih, map_cons]

def parts : Expr N R H A → List (List N × Expr N R H A)
  | lit _ _ | var _ _ | none _ => []
  | unary _ _ operand => [([], operand)]
  | binary _ _ lhs rhs => [([], lhs), ([], rhs)]
  | cond _ test yes no => [([], test), ([], yes), ([], no)]
  | letIn _ binder bound body => [([], bound), ([binder.name], body)]
  | letRec _ name params _ body rest =>
    [(params.map Binder.name ++ [name], body), ([name], rest)]
  | letTuple _ binders bound body => [([], bound), (binders.map Binder.name, body)]
  | apply _ callee args => ([], callee) :: args.map (Prod.mk [])
  | tuple _ elements => elements.map (Prod.mk [])
  | arrayMake _ size element => [([], size), ([], element)]
  | arrayLit _ elements => elements.map (Prod.mk [])
  | arrayLen _ array => [([], array)]
  | arrayGet _ array index => [([], array), ([], index)]
  | arraySet _ array index value => [([], array), ([], index), ([], value)]
  | some _ element => [([], element)]
  | matchOption _ target binder someArm noneArm =>
    [([], target), ([binder.name], someArm), ([], noneArm)]
  | typed _ child _ => [([], child)]

def binds : Expr N R H A → List N
  | letIn _ binder _ _ | matchOption _ _ binder _ _ => [binder.name]
  | letRec _ name params _ _ _ => name :: params.map Binder.name
  | letTuple _ binders _ _ => binders.map Binder.name
  | _ => []

def hints : Expr N R H A → List H
  | letIn _ binder _ _ | matchOption _ _ binder _ _ => binder.hint.toList
  | letRec _ _ params result _ _ =>
    params.flatMap (fun param => param.hint.toList) ++ result.toList
  | letTuple _ binders _ _ => binders.flatMap (fun binder => binder.hint.toList)
  | typed _ _ hint => [hint]
  | _ => []

def ref? : Expr N R H A → Option R
  | var _ ref => Option.some ref
  | _ => Option.none

theorem part_induction (step : ∀ expr, (∀ part ∈ expr.parts, motive part.2) → motive expr)
    (expr : Expr N R H A) :
    motive expr := by
  induction expr <;> apply step <;> simp [parts] <;> grind

theorem mem_binds_of_part {expr inner : Expr N R H A} {names : List N} {name : N}
    (inside : (names, inner) ∈ expr.parts) (mem : name ∈ names) : name ∈ expr.binds := by
  cases expr <;> simp [parts, binds] at inside ⊢ <;> grind

theorem eventsOf_eq (exprs : List (Expr N R H A)) : eventsOf exprs = exprs.flatMap events := by
  induction exprs with
  | nil => rfl
  | cons _ _ ih => rw [eventsOf, ih, flatMap_cons]

theorem filterMap_events {α : Type} (pick : Event N R H A → Option α) (exprs : List (Expr N R H A)) :
    (exprs.flatMap events).filterMap pick = exprs.flatMap (fun expr => expr.events.filterMap pick) := by
  induction exprs with
  | nil => rfl
  | cons _ _ ih => rw [flatMap_cons, filterMap_append, ih, flatMap_cons]

theorem name?_hints (hints : List H) :
    hints.filterMap (Event.name? ∘ Event.hint (N := N) (R := R) (A := A)) = [] :=
  filterMap_eq_nil_iff.mpr fun _ _ => rfl

theorem ref?_hints (hints : List H) :
    hints.filterMap (Event.ref? ∘ Event.hint (N := N) (R := R) (A := A)) = [] :=
  filterMap_eq_nil_iff.mpr fun _ _ => rfl

theorem names_events (binders : List (Binder N H)) :
    (binders.flatMap (Binder.events (R := R) (A := A))).filterMap Event.name? =
      binders.map Binder.name := by
  induction binders with
  | nil => rfl
  | cons _ _ ih =>
    rw [flatMap_cons, filterMap_append, ih]
    simp [Binder.events, Event.name?, filterMap_cons, name?_hints]

theorem refs_events (binders : List (Binder N H)) :
    (binders.flatMap (Binder.events (R := R) (A := A))).filterMap Event.ref? = [] := by
  induction binders with
  | nil => rfl
  | cons _ _ ih =>
    rw [flatMap_cons, filterMap_append, ih]
    simp [Binder.events, Event.ref?, filterMap_cons]

theorem names_perm (expr : Expr N R H A) :
    expr.names.Perm (expr.binds ++ expr.parts.flatMap (fun part => part.2.names)) := by
  cases expr with
  | letIn _ _ _ _ =>
    simp [names, binds, parts, events, between, Binder.events, Event.name?, filterMap_cons, name?_hints]
  | letTuple _ _ _ _ =>
    simp [names, binds, parts, events, between, Event.name?, filterMap_cons, names_events,
      perm_append_comm_assoc]
  | matchOption _ _ _ _ _ =>
    simp [names, binds, parts, events, between, Binder.events, Event.name?, filterMap_cons, name?_hints]
  | _ =>
    simp only [names, binds, parts, events, between, eventsOf_eq, Event.name?, filterMap_events, names_events,
      name?_hints, filterMap_nil, filterMap_cons, filterMap_append, filterMap_map,
      flatMap_nil, flatMap_cons, flatMap_map, nil_append, cons_append,
      append_nil, append_assoc, Perm.refl]

theorem refs_eq (expr : Expr N R H A) :
    expr.refs = expr.ref?.toList ++ expr.parts.flatMap (fun part => part.2.refs) := by
  cases expr <;>
    simp only [refs, ref?, parts, events, between, eventsOf_eq, Binder.events, Event.ref?, filterMap_events,
      refs_events, ref?_hints, Option.toList_none, Option.toList_some, filterMap_nil,
      filterMap_cons, filterMap_append, filterMap_map, flatMap_nil, flatMap_cons,
      flatMap_map, nil_append, cons_append, append_nil, append_assoc]

section

variable (name : N → N') (ref : R → R') (hint : H → H') (note : A → A')

theorem parts_map (expr : Expr N R H A) :
    (expr.map name ref hint note).parts =
      expr.parts.map fun part => (part.1.map name, part.2.map name ref hint note) := by
  cases expr <;> simp [map, parts, Function.comp_def]

theorem binds_map (expr : Expr N R H A) :
    (expr.map name ref hint note).binds = expr.binds.map name := by
  cases expr <;> simp [map, binds]

@[simp] theorem note_map (expr : Expr N R H A) :
    (expr.map name ref hint note).note = note expr.note := by
  cases expr <;> rfl

theorem map_map {N'' R'' H'' A'' : Type} (name' : N' → N'') (ref' : R' → R'') (hint' : H' → H'')
    (note' : A' → A'') (expr : Expr N R H A) :
    (expr.map name ref hint note).map name' ref' hint' note' =
      expr.map (name' ∘ name) (ref' ∘ ref) (hint' ∘ hint) (note' ∘ note) := by
  induction expr <;> simp_all [map]

theorem names_map_perm (expr : Expr N R H A) :
    (expr.map name ref hint note).names.Perm (expr.names.map name) := by
  induction expr using part_induction with
  | step expr ih =>
    refine (names_perm _).trans (.trans ?_ ((names_perm expr).map name).symm)
    rw [binds_map, parts_map, map_append, map_flatMap, flatMap_map]
    exact .append (.refl _) (.flatMap_left _ ih)

theorem ref?_map (expr : Expr N R H A) : (expr.map name ref hint note).ref? = expr.ref?.map ref := by
  cases expr <;> rfl

theorem refs_map (expr : Expr N R H A) : (expr.map name ref hint note).refs = expr.refs.map ref := by
  induction expr using part_induction with
  | step expr ih =>
    rw [refs_eq, refs_eq expr, ref?_map, parts_map, map_append, map_flatMap, flatMap_map]
    congr 1
    · cases expr.ref? <;> rfl
    · exact flatMap_congr ih

end

end Expr

end MiddleEnd
