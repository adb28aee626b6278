import MiddleEnd.Proofs.Typing.Infer
import MiddleEnd.Typing.Check

/-! Final types: closing a derivation runs into no fault, and puts the final type of a store in the
place of every type. -/

namespace MiddleEnd

open List

variable {store : Store} {type : Ty} {state : Inference} {ctx : Context} {expr : TypedExpr}
  {later : Store}

namespace Store

def closed (store : Store) (type : Ty) : Ty := (store.expand type).substVars .generic

def Closes (store : Store) (type : Ty) : Prop :=
  ∀ n ∈ (store.expand type).vars, store.isGeneralized n = true

theorem close?_eq_some {final : Ty} :
    store.close? type = some final ↔ store.Closes type ∧ final = store.closed type := by
  simp only [close?]
  split
  · next all =>
    have closes : store.Closes type := all_eq_true.mp all
    exact ⟨fun same => ⟨closes, (Option.some.inj same).symm⟩, fun same => congrArg some same.2.symm⟩
  · next some_open =>
    refine ⟨fun impossible => (nomatch impossible), fun same => ?_⟩
    exact absurd (all_eq_true.mpr same.1) some_open

theorem Closes.of_subset {other : Ty} (closes : store.Closes type)
    (subset : ∀ n ∈ other.vars, n ∈ type.vars) : store.Closes other := by
  intro n mem
  obtain ⟨between, there, mem⟩ := mem_vars_expand.mp mem
  exact closes n (mem_vars_expand.mpr ⟨between, subset between there, mem⟩)

structure Defaulted (store later : Store) : Prop where
  keeps : store.Keeps later
  isGeneralized (n : Nat) : later.isGeneralized n = store.isGeneralized n
  size_eq : later.size = store.size
  frozen {n : Nat} (frozen : store.isGeneralized n = true) :
    later.link? n = store.link? n
  unit {n : Nat} {type : Ty} (unlinked : store.link? n = none)
    (linked : later.link? n = some type) : type = .unit

theorem Defaulted.refl (store : Store) : store.Defaulted store :=
  ⟨.refl store, fun _ => rfl, rfl, fun _ => rfl, fun unlinked linked => by
    rw [unlinked] at linked
    cases linked⟩

theorem Defaulted.trans {first second third : Store} (left : first.Defaulted second)
    (right : second.Defaulted third) : first.Defaulted third where
  keeps := left.keeps.trans right.keeps
  isGeneralized n := (right.isGeneralized n).trans (left.isGeneralized n)
  size_eq := right.size_eq.trans left.size_eq
  frozen frozen := (right.frozen ((left.isGeneralized _).trans frozen)).trans (left.frozen frozen)
  unit {n type} unlinked linked := by
    cases between : second.link? n with
    | none => exact right.unit between linked
    | some _ =>
      rw [right.keeps.link? between] at linked
      cases linked
      exact left.unit unlinked between

theorem defaulted_foldl {α : Type} {step : Store → α → Store}
    (each : ∀ store value, Defaulted store (step store value)) (values : List α) (store : Store) :
    store.Defaulted (values.foldl step store) := by
  induction values generalizing store with
  | nil => exact .refl store
  | cons value _ ih => exact (each store value).trans (ih _)

theorem defaulted_defaultVariable (store : Store) (n : Nat) :
    store.Defaulted (store.defaultVariable n) := by
  unfold defaultVariable
  split
  · next open_ =>
    simp only [Bool.and_eq_true, Option.isNone_iff_eq_none, Bool.not_eq_true'] at open_
    by_cases made : n < store.size
    · refine ⟨keeps_setLink _ made open_.1, isGeneralized_setLink, size_setLink, ?_, ?_⟩
      · intro other frozen
        rw [link?_setLink made, if_neg]
        rintro rfl
        rw [open_.2] at frozen
        cases frozen
      · intro other type unlinked linked
        rw [link?_setLink made] at linked
        split at linked
        · cases linked
          rfl
        · rw [unlinked] at linked
          cases linked
    · have same (other : Nat) :
          (store.setLink n .unit (store.avoids_unit n)).link? other = store.link? other :=
        link?_setLink_of_le (Nat.le_of_not_lt made) other
      refine ⟨⟨Nat.le_of_eq size_setLink.symm, fun linked => (same _).trans linked⟩,
        isGeneralized_setLink, size_setLink, fun _ => same _, fun unlinked linked => ?_⟩
      rw [same, unlinked] at linked
      cases linked
  · exact .refl store

theorem defaulted_defaultToUnit (store : Store) (type : Ty) :
    store.Defaulted (store.defaultToUnit type) :=
  defaulted_foldl defaulted_defaultVariable _ store

theorem defaulted_defaultResult (store : Store) (external : External) :
    store.Defaulted (store.defaultResult external) := by
  unfold defaultResult
  split
  · split
    · exact defaulted_defaultVariable store _
    · exact .refl store
  · exact .refl store

theorem Defaulted.generics (defaulted : store.Defaulted later)
    (plain : (store.expand type).generics = []) : (later.expand type).generics = [] := by
  rw [← defaulted.keeps.expand_expand, generics_expand_eq_nil]
  refine ⟨fun n there => ?_, plain⟩
  have unlinked := link?_of_mem_expand there
  cases linked : later.link? n with
  | none =>
    rw [expand_of_unlinked linked]
    rfl
  | some _ =>
    rw [expand_of_linked linked, defaulted.unit unlinked linked]
    rfl

theorem Keeps.closed_eq (keeps : store.Keeps later) {left right : Ty}
    (same : store.expand left = store.expand right) : later.closed left = later.closed right :=
  congrArg (Ty.substVars .generic) (keeps.expand_eq same)

@[simp] theorem closed_prim (store : Store) (primitive : Primitive) :
    store.closed (.prim primitive) = .prim primitive := rfl

@[simp] theorem closed_app (store : Store) (con : Constructor) (element : Ty) :
    store.closed (.app con element) = .app con (store.closed element) := rfl

@[simp] theorem closed_tuple (store : Store) (elements : List Ty) :
    store.closed (.tuple elements) = .tuple (elements.map store.closed) := by
  simp [closed, Ty.substVars]

@[simp] theorem closed_function (store : Store) (params : List Ty) (result : Ty) :
    store.closed (.function params result) =
      .function (params.map store.closed) (store.closed result) := by
  simp [closed, Ty.substVars]

end Store

theorem Inference.defaulted_settle (state : Inference) (body : TypedExpr) :
    state.store.Defaulted (state.settle body) :=
  ((Store.defaulted_foldl Store.defaulted_defaultVariable _ _).trans
    (Store.defaulted_foldl (fun store (bound : Bound) => store.defaulted_defaultToUnit bound.type) _ _)).trans
    (Store.defaulted_foldl (fun store (entry : String × External) => store.defaulted_defaultResult entry.2) _ _)

/-! ### Typed trees with the final types of a store -/

def Note.close (store : Store) (note : Note) : Note := { note with type := store.closed note.type }

def Bound.close (store : Store) (bound : Bound) : Bound :=
  { bound with type := store.closed bound.type }

def Binder.close (store : Store) (binder : Binder Bound Annotation) : Binder Bound Annotation :=
  { binder with name := binder.name.close store }

def Instantiation.close (store : Store) (made : Instantiation) : Instantiation :=
  { made with
    mapping := made.mapping.map fun entry => (entry.1, store.closed entry.2)
    type := store.closed made.type
    scheme := store.closed made.scheme }

def Use.close (store : Store) (use : Use) : Use :=
  { use with instantiation := use.instantiation.map (Instantiation.close store) }

def Expr.close (store : Store) (expr : TypedExpr) : TypedExpr :=
  expr.map (Bound.close store) (Use.close store) id (Note.close store)

@[simp] theorem Expr.type_close (store : Store) (expr : TypedExpr) :
    (expr.close store).type = store.closed expr.type := by
  rw [Expr.type, Expr.close, Expr.note_map]
  rfl

@[simp] theorem Expr.erase_close (store : Store) (expr : TypedExpr) :
    (expr.close store).erase = expr.erase :=
  Expr.map_map _ _ _ _ _ _ _ _ expr

/-- A program that is stopped because a type is not fully known. -/
def Stop.IsUnknown : Stop → Prop
  | .rejected { problem := .cannotInfer _ _, .. } => True
  | _ => False

theorem Stop.IsUnknown.isRejection {stop : Stop} (unknown : stop.IsUnknown) : stop.IsRejection := by
  cases stop with
  | rejected _ => trivial
  | fault _ => exact unknown

namespace Close

abbrev Closes {α : Type} (outcome : Except Stop α) (final : α) : Prop :=
  Yields Stop.IsUnknown outcome (· = final)

theorem type_spec (what : String) (type : Ty) (span : Span) :
    Yields Stop.IsUnknown (Close.type store what type span) fun final =>
      final = store.closed type ∧ store.Closes type := by
  unfold Close.type
  split
  · next final found =>
    have spec := Store.close?_eq_some.mp found
    exact .pure ⟨spec.2, spec.1⟩
  · exact .throw trivial

theorem note_spec (note : Note) : Yields Stop.IsUnknown (Close.note store note) fun final =>
      final = note.close store ∧ store.Closes note.type :=
  .bind (type_spec _ note.type note.span) fun _ spec => .pure ⟨by rw [spec.1]; rfl, spec.2⟩

theorem note_closes (note : Note) : Closes (Close.note store note) (note.close store) :=
  (note_spec note).weaken fun _ spec => spec.1

theorem bound_closes (bound : Bound) : Closes (Close.bound store bound) (bound.close store) :=
  .bind (type_spec _ bound.type _) fun _ spec => .pure (by rw [spec.1]; rfl)

theorem binder_closes (binder : Binder Bound Annotation) :
    Closes (Close.binder store binder) (binder.close store) :=
  .bind (bound_closes binder.name) fun _ spec => .pure (by rw [spec]; rfl)

theorem binders_closes (binders : List (Binder Bound Annotation)) :
    Closes (Close.binders store binders) (binders.map (Binder.close store)) := by
  induction binders with
  | nil => exact .pure rfl
  | cons first _ ih =>
    rw [Close.binders]
    refine .bind (binder_closes first) fun _ spec => ?_
    refine .bind ih fun _ rest_spec => .pure ?_
    rw [spec, rest_spec, map_cons]

theorem instanceType_closes (closes : store.Closes type) :
    Closes (instanceType store type) (store.closed type) := by
  rw [instanceType, Store.close?_eq_some.mpr ⟨closes, rfl⟩]
  exact .pure rfl

theorem mapping_closes {mapping : List (Nat × Ty)} (closes : ∀ entry ∈ mapping, store.Closes entry.2) :
    Closes (Close.mapping store mapping)
      (mapping.map fun entry => (entry.1, store.closed entry.2)) := by
  induction mapping with
  | nil => exact .pure rfl
  | cons first _ ih =>
    rw [Close.mapping]
    refine .bind (instanceType_closes (closes first (.head _))) fun _ spec => ?_
    refine .bind (ih fun entry mem => closes entry (.tail _ mem)) fun _ rest_spec => .pure ?_
    rw [spec, rest_spec, map_cons]

theorem instantiation_closes {made : Instantiation} (fits : made.Fits) (closes : store.Closes made.type) :
    Closes (Close.instantiation store made) (made.close store) := by
  have mapped : ∀ entry ∈ made.mapping, store.Closes entry.2 := by
    intro entry mem
    refine closes.of_subset fun n here => ?_
    have generic : entry.1 ∈ made.scheme.generics :=
      (fits.keys entry.1).mp (mem_map_of_mem mem)
    rw [fits.type_eq, Ty.substGenerics, Ty.mem_vars_subst]
    refine .inr ⟨entry.1, generic, ?_⟩
    rw [lookup_of_mem fits.distinct mem]
    exact here
  have scheme : store.Closes made.scheme := by
    refine closes.of_subset fun n here => ?_
    rw [fits.type_eq, Ty.substGenerics, Ty.mem_vars_subst]
    exact .inl ⟨n, here, by simp⟩
  refine .bind (mapping_closes mapped) fun _ mapping_spec => ?_
  refine .bind (instanceType_closes closes) fun _ type_spec => ?_
  refine .bind (instanceType_closes scheme) fun _ scheme_spec => .pure ?_
  rw [mapping_spec, type_spec, scheme_spec]
  rfl

theorem use_closes {use : Use} (uses : Uses state ctx use type) (closes : store.Closes type) :
    Closes (Close.use store use) (use.close store) := by
  cases uses with
  | mono _ _ taken _ =>
    rw [Close.use, taken]
    exact .pure (by rw [Use.close, taken]; cases use; simp_all)
  | poly _ taken type_eq fits =>
    rw [Close.use, taken]
    refine .bind (instantiation_closes fits (type_eq ▸ closes)) fun _ spec => .pure ?_
    rw [spec, Use.close, taken]
    rfl

theorem exprs_closes {exprs : List TypedExpr}
    (each : ∀ expr ∈ exprs, Closes (Close.expr store expr) (expr.close store)) :
    Closes (Close.exprs store exprs) (exprs.map (Expr.close store)) := by
  induction exprs with
  | nil => exact .pure rfl
  | cons first _ ih =>
    rw [Close.exprs]
    refine .bind (each first (.head _)) fun _ spec => ?_
    refine .bind (ih fun expr mem => each expr (.tail _ mem)) fun _ rest_spec => .pure ?_
    rw [spec, rest_spec, map_cons]

theorem expr_closes (derives : Derives state ctx expr) :
    Closes (Close.expr store expr) (expr.close store) := by
  induction derives with
  | lit =>
    rw [Close.expr]
    exact .bind (note_closes _) fun _ here => .pure (by rw [here]; rfl)
  | var uses =>
    rw [Close.expr]
    refine .bind (note_spec _) fun _ spec => ?_
    refine .bind (use_closes uses spec.2) fun _ use => .pure ?_
    rw [spec.1, use]
    rfl
  | unary _ _ ih =>
    rw [Close.expr]
    refine .bind ih fun _ operand => .bind (note_closes _) fun _ here => .pure ?_
    rw [operand, here]
    rfl
  | binary _ _ _ _ _ lhs_ih rhs_ih | compare _ _ _ _ lhs_ih rhs_ih =>
    rw [Close.expr]
    refine .bind lhs_ih fun _ lhs => .bind rhs_ih fun _ rhs => .bind (note_closes _) fun _ here => .pure ?_
    rw [lhs, rhs, here]
    rfl
  | cond _ _ _ _ _ test_ih yes_ih no_ih =>
    rw [Close.expr]
    refine .bind test_ih fun _ test => .bind yes_ih fun _ yes => .bind no_ih fun _ no => ?_
    refine .bind (note_closes _) fun _ here => .pure ?_
    rw [test, yes, no, here]
    rfl
  | letIn _ _ _ _ bound_ih body_ih =>
    rw [Close.expr]
    refine .bind bound_ih fun _ bound => .bind (binder_closes _) fun _ name => .bind body_ih fun _ body => ?_
    refine .bind (note_closes _) fun _ here => .pure ?_
    rw [bound, name, body, here]
    simp [Expr.close, Expr.map, Binder.close]
  | letRec _ _ _ _ _ _ _ body_ih rest_ih =>
    rw [Close.expr]
    refine .bind (binders_closes _) fun _ params => .bind body_ih fun _ body => ?_
    refine .bind (bound_closes _) fun _ name => .bind rest_ih fun _ rest => ?_
    refine .bind (note_closes _) fun _ here => .pure ?_
    rw [params, body, name, rest, here]
    simp [Expr.close, Expr.map, Binder.close]
  | letTuple _ _ _ _ _ bound_ih body_ih =>
    rw [Close.expr]
    refine .bind bound_ih fun _ bound => .bind (binders_closes _) fun _ names => .bind body_ih fun _ body => ?_
    refine .bind (note_closes _) fun _ here => .pure ?_
    rw [bound, names, body, here]
    simp [Expr.close, Expr.map, Binder.close]
  | apply _ _ _ callee_ih args_ih =>
    rw [Close.expr]
    refine .bind callee_ih fun _ callee => .bind (exprs_closes args_ih) fun _ args => ?_
    refine .bind (note_closes _) fun _ here => .pure ?_
    rw [callee, args, here]
    simp [Expr.close, Expr.map]
  | tuple _ ih | arrayLit _ _ ih =>
    rw [Close.expr]
    refine .bind (exprs_closes ih) fun _ elements => .bind (note_closes _) fun _ here => .pure ?_
    rw [elements, here]
    simp [Expr.close, Expr.map]
  | arrayMake _ _ _ first_ih second_ih | arrayGet _ _ _ _ first_ih second_ih =>
    rw [Close.expr]
    refine .bind first_ih fun _ first => .bind second_ih fun _ second => ?_
    refine .bind (note_closes _) fun _ here => .pure ?_
    rw [first, second, here]
    rfl
  | arrayLen _ _ ih | some _ ih | typed _ _ ih =>
    rw [Close.expr]
    refine .bind ih fun _ inner => .bind (note_closes _) fun _ here => .pure ?_
    rw [inner, here]
    rfl
  | arraySet _ _ _ _ _ _ array_ih index_ih value_ih =>
    rw [Close.expr]
    refine .bind array_ih fun _ array => .bind index_ih fun _ index => .bind value_ih fun _ value => ?_
    refine .bind (note_closes _) fun _ here => .pure ?_
    rw [array, index, value, here]
    rfl
  | none =>
    rw [Close.expr]
    exact .bind (note_closes _) fun _ here => .pure (by rw [here]; rfl)
  | matchOption _ _ _ _ _ _ _ target_ih some_ih none_ih =>
    rw [Close.expr]
    refine .bind target_ih fun _ target => .bind (binder_closes _) fun _ name => ?_
    refine .bind some_ih fun _ someArm => .bind none_ih fun _ noneArm => ?_
    refine .bind (note_closes _) fun _ here => .pure ?_
    rw [target, name, someArm, noneArm, here]
    simp [Expr.close, Expr.map, Binder.close]

theorem externals_closes (program : Resolved) (entries : List (String × External)) :
    Closes (Close.externals store program entries)
      (entries.map fun (name, external) => (name, { external with type := store.closed external.type })) := by
  induction entries with
  | nil => exact .pure rfl
  | cons _ _ ih =>
    rw [Close.externals]
    refine .bind (type_spec _ _ _) fun _ spec => .bind ih fun _ rest_spec => .pure ?_
    rw [spec.1, rest_spec, map_cons]

end Close

inductive Shaped : TypedExpr → Prop where
  | node {expr : TypedExpr}
      (tuple : ∀ note binders bound body, expr = .letTuple note binders bound body →
        ∃ types, bound.type = .tuple types ∧ types.length = binders.length)
      (option : ∀ note target binder someArm noneArm,
        expr = .matchOption note target binder someArm noneArm → ∃ element, target.type = .option element)
      (parts : ∀ part ∈ expr.parts, Shaped part.2) : Shaped expr

theorem Shaped.part {inner : TypedExpr} (shaped : Shaped expr)
    (inside : inner ∈ expr.parts.map Prod.snd) : Shaped inner := by
  obtain ⟨part, mem, rfl⟩ := mem_map.mp inside
  cases shaped with
  | node _ _ parts => exact parts part mem

theorem Parted.length_eq {start : Inference} {binders : List (Binder Bound Annotation)}
    {types : List Ty} (parted : Parted start state ctx binders types) :
    types.length = binders.length := by
  induction parted with
  | nil => rfl
  | cons _ _ _ _ ih => rw [length_cons, length_cons, ih]

theorem Shaped.of_parts (parts : ∀ part ∈ expr.parts, Shaped part.2)
    (no_tuple : ∀ note binders bound body, expr ≠ .letTuple note binders bound body :=
      by simp [Expr.close, Expr.map])
    (no_match : ∀ note target binder someArm noneArm,
      expr ≠ .matchOption note target binder someArm noneArm := by simp [Expr.close, Expr.map]) :
    Shaped expr :=
  .node (fun note binders bound body same => absurd same (no_tuple note binders bound body))
    (fun note target binder someArm noneArm same =>
      absurd same (no_match note target binder someArm noneArm)) parts

theorem Derives.shaped (derives : Derives state ctx expr) (keeps : state.store.Keeps store) :
    Shaped (expr.close store) := by
  induction derives with
  | lit | var | none => apply Shaped.of_parts <;> simp [Expr.close, Expr.map, Expr.parts]
  | unary _ _ ih | arrayLen _ _ ih | some _ ih | typed _ _ ih =>
    refine .of_parts ?_
    simpa [Expr.close, Expr.map, Expr.parts] using ih keeps
  | binary _ _ _ _ _ first_ih second_ih | compare _ _ _ _ first_ih second_ih
  | arrayMake _ _ _ first_ih second_ih | arrayGet _ _ _ _ first_ih second_ih =>
    refine .of_parts ?_
    simpa [Expr.close, Expr.map, Expr.parts] using ⟨first_ih keeps, second_ih keeps⟩
  | cond _ _ _ _ _ first_ih second_ih third_ih | arraySet _ _ _ _ _ _ first_ih second_ih third_ih =>
    refine .of_parts ?_
    simpa [Expr.close, Expr.map, Expr.parts] using ⟨first_ih keeps, second_ih keeps, third_ih keeps⟩
  | letIn _ _ generalized _ bound_ih body_ih =>
    have bound := bound_ih (generalized.steps.grows.keeps.trans keeps)
    refine .of_parts ?_
    simpa [Expr.close, Expr.map, Expr.parts] using ⟨bound, body_ih keeps⟩
  | letRec _ _ _ _ _ generalized _ body_ih rest_ih =>
    have body := body_ih (generalized.steps.grows.keeps.trans keeps)
    refine .of_parts ?_
    simpa [Expr.close, Expr.map, Expr.parts] using ⟨body, rest_ih keeps⟩
  | @letTuple middle _ _ _ _ types bound' _ _ same steps parted _ bound_ih body_ih =>
    have bound := bound_ih (steps.grows.keeps.trans keeps)
    refine .node ?_ (by simp [Expr.close, Expr.map])
      (by simpa [Expr.close, Expr.map, Expr.parts] using ⟨bound, body_ih keeps⟩)
    rintro note _ bound body same_expr
    cases same_expr
    refine ⟨types.map store.closed, ?_, by simp [parted.length_eq]⟩
    rw [← Store.closed_tuple]
    exact (Expr.type_close store _).trans ((steps.grows.keeps.trans keeps).closed_eq same)
  | apply _ _ _ callee_ih args_ih =>
    refine .of_parts ?_
    simpa [Expr.close, Expr.map, Expr.parts] using
      ⟨callee_ih keeps, fun arg mem => args_ih arg mem keeps⟩
  | tuple _ ih | arrayLit _ _ ih =>
    refine .of_parts ?_
    simpa [Expr.close, Expr.map, Expr.parts] using fun element mem => ih element mem keeps
  | matchOption _ _ target_same _ _ _ _ target_ih some_ih none_ih =>
    refine .node (by simp [Expr.close, Expr.map]) ?_
      (by simpa [Expr.close, Expr.map, Expr.parts] using ⟨target_ih keeps, some_ih keeps, none_ih keeps⟩)
    rintro note _ _ _ _ same_expr
    cases same_expr
    exact ⟨_, (Expr.type_close store _).trans (keeps.closed_eq target_same).symm⟩

end MiddleEnd
