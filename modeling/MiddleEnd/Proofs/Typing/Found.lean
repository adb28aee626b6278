import MiddleEnd.Proofs.Typing.Final

/-! What inference makes of an expression is well typed in the end, if generalized variables are left
alone. Annotations on the parts of a tuple pattern are checked after other parts have been
generalized, so patterns are without them here. -/

namespace MiddleEnd

open List

variable {expr : TypedExpr} {state : Inference} {exprs : List Term} {type returned : Ty}
  {params : List (Binder Bound Annotation)} {types : List Ty} {final state' : Inference} {op : BinaryOp}
  {binder : Binder Bound Annotation}

namespace Expr

variable {N R H A : Type}

mutual
def patterns : Expr N R H A → List (Binder N H)
  | lit _ _ | var _ _ | none _ => []
  | unary _ _ operand => operand.patterns
  | binary _ _ lhs rhs => lhs.patterns ++ rhs.patterns
  | cond _ test yes no => test.patterns ++ yes.patterns ++ no.patterns
  | letIn _ _ bound body => bound.patterns ++ body.patterns
  | letRec _ _ _ _ body rest => body.patterns ++ rest.patterns
  | letTuple _ binders bound body => binders ++ bound.patterns ++ body.patterns
  | apply _ callee args => callee.patterns ++ patternsOf args
  | tuple _ elements => patternsOf elements
  | arrayMake _ size element => size.patterns ++ element.patterns
  | arrayLit _ elements => patternsOf elements
  | arrayLen _ array => array.patterns
  | arrayGet _ array index => array.patterns ++ index.patterns
  | arraySet _ array index value => array.patterns ++ index.patterns ++ value.patterns
  | some _ element => element.patterns
  | matchOption _ target _ someArm noneArm => target.patterns ++ someArm.patterns ++ noneArm.patterns
  | typed _ child _ => child.patterns
def patternsOf : List (Expr N R H A) → List (Binder N H)
  | [] => []
  | expr :: exprs => expr.patterns ++ patternsOf exprs
end

theorem patternsOf_eq (exprs : List (Expr N R H A)) : patternsOf exprs = exprs.flatMap patterns := by
  induction exprs with
  | nil => rfl
  | cons _ _ ih => rw [patternsOf, ih, flatMap_cons]

/-- Whether no part of a tuple pattern has an annotation. -/
def PlainPatterns (expr : Expr N R H A) : Prop := ∀ binder ∈ expr.patterns, binder.hint = Option.none

instance (expr : Expr N R H A) : Decidable expr.PlainPatterns :=
  inferInstanceAs (Decidable (∀ binder ∈ expr.patterns, binder.hint = Option.none))

theorem PlainPatterns.part {expr inner : Expr N R H A} (plain : PlainPatterns expr)
    (inside : inner ∈ expr.parts.map Prod.snd) : PlainPatterns inner := by
  intro binder _
  refine plain binder ?_
  cases expr <;> simp [parts, patterns, patternsOf_eq] at inside ⊢ <;> grind

theorem PlainPatterns.binders {note : A} {binders : List (Binder N H)} {bound body : Expr N R H A}
    (plain : PlainPatterns (.letTuple note binders bound body)) :
    ∀ binder ∈ binders, binder.hint = Option.none :=
  fun binder mem => plain binder (mem_append_left _ (mem_append_left _ mem))

theorem comparisonsOf_eq (exprs : List TypedExpr) :
    comparisonsOf exprs = exprs.flatMap comparisons := by
  induction exprs with
  | nil => rfl
  | cons _ _ ih => rw [comparisonsOf, ih, flatMap_cons]

theorem mem_comparisons_of_part {inner : TypedExpr} (inside : inner ∈ expr.parts.map Prod.snd)
    {here : Comparison} (mem : here ∈ inner.comparisons) : here ∈ expr.comparisons := by
  cases expr <;> simp [parts, comparisons, comparisonsOf_eq] at inside ⊢ <;> grind

def Comparable (expr : TypedExpr) : Prop :=
  ∀ here ∈ expr.comparisons, here.op.accepts here.operand = true

theorem Comparable.part {store : Store} {inner : TypedExpr} (comparable : (expr.close store).Comparable)
    (inside : inner ∈ expr.parts.map Prod.snd := by simp [Expr.parts]) :
    (inner.close store).Comparable := by
  intro here mem
  refine comparable here (mem_comparisons_of_part ?_ mem)
  obtain ⟨part, there, rfl⟩ := mem_map.mp inside
  rw [close, parts_map, List.map_map]
  exact mem_map.mpr ⟨part, there, rfl⟩

def hasScheme : TypedExpr → Bool
  | var .. | letIn .. | letRec .. | letTuple .. => true
  | _ => false

theorem ref?_of_hasScheme (simple : expr.hasScheme = false) : expr.ref? = Option.none := by
  cases expr with
  | var => cases simple
  | _ => rfl

end Expr

/-! ### Final types of trees with binders -/

section

variable (store : Store) (note : Note)

theorem Expr.close_letIn (binder : Binder Bound Annotation) (bound body : TypedExpr) :
    (Expr.letIn note binder bound body).close store =
      .letIn (note.close store) (binder.close store) (bound.close store) (body.close store) := by
  simp [Expr.close, Expr.map, Binder.close]

theorem Expr.close_letRec (name : Bound) (params : List (Binder Bound Annotation))
    (result : Option Annotation) (body rest : TypedExpr) :
    (Expr.letRec note name params result body rest).close store =
      .letRec (note.close store) (name.close store) (params.map (Binder.close store)) result
        (body.close store) (rest.close store) := by
  simp [Expr.close, Expr.map, Binder.close]

theorem Expr.close_letTuple (binders : List (Binder Bound Annotation)) (bound body : TypedExpr) :
    (Expr.letTuple note binders bound body).close store =
      .letTuple (note.close store) (binders.map (Binder.close store)) (bound.close store)
        (body.close store) := by
  simp [Expr.close, Expr.map, Binder.close]

theorem Expr.close_matchOption (target : TypedExpr) (binder : Binder Bound Annotation)
    (someArm noneArm : TypedExpr) :
    (Expr.matchOption note target binder someArm noneArm).close store =
      .matchOption (note.close store) (target.close store) (binder.close store) (someArm.close store)
        (noneArm.close store) := by
  simp [Expr.close, Expr.map, Binder.close]

theorem Expr.close_apply (callee : TypedExpr) (args : List TypedExpr) :
    (Expr.apply note callee args).close store =
      .apply (note.close store) (callee.close store) (args.map (Expr.close store)) := by
  simp [Expr.close, Expr.map]

theorem Expr.close_tuple (elements : List TypedExpr) :
    (Expr.tuple note elements).close store =
      .tuple (note.close store) (elements.map (Expr.close store)) := by
  simp [Expr.close, Expr.map]

theorem Expr.close_arrayLit (elements : List TypedExpr) :
    (Expr.arrayLit note elements).close store =
      .arrayLit (note.close store) (elements.map (Expr.close store)) := by
  simp [Expr.close, Expr.map]

end

theorem Inference.Follows.type_eq {aliases : List Ty} (follows : state.Follows final aliases)
    {typed : TypedExpr} (same : state.Same type typed.type) :
    (typed.close final.store).type = final.store.closed type :=
  (typed.type_close final.store).trans (follows.leaves.keeps.closed_eq same).symm

theorem Context.assumes_bindAll (ctx : Context) (binders : List (Binder Bound Annotation))
    (store : Store) :
    (ctx.bindAll binders).assumes store = (ctx.assumes store).bindAll (binders.map fun binder =>
        (binder.name.symbol, ⟨store.closed binder.name.type, binder.name.type.generics⟩)) := by
  induction binders generalizing ctx with
  | nil => rfl
  | cons binder _ ih => exact ih (ctx.bind binder.name.symbol binder.name.type)

theorem Context.assumes_function (ctx : Context) (name : Symbol)
    (plain : (Bound.function params returned).generics = []) (store : Store) :
    ((ctx.bindAll params).bind name (Bound.function params returned)).assumes store =
      (name.number, ⟨store.closed (Bound.function params returned), []⟩) ::
        (ctx.assumes store).bindAll ((params.map (Binder.close store)).map fun param =>
          (param.name.symbol, param.name.poly)) := by
  have params_plain : ∀ param ∈ params, param.name.type.generics = [] := by
    rw [Bound.function, Ty.generics_function, append_eq_nil_iff, flatMap_eq_nil_iff] at plain
    exact fun param mem => plain.1 _ (mem_map_of_mem mem)
  have names_eq : (params.map (Binder.close store)).map (fun param => (param.name.symbol, param.name.poly)) =
      params.map fun param =>
        (param.name.symbol, ⟨store.closed param.name.type, param.name.type.generics⟩) := by
    rw [List.map_map]
    refine map_congr_left fun param mem => ?_
    rw [params_plain param mem]
    rfl
  rw [names_eq, ← Context.assumes_bindAll, ← plain]
  rfl

namespace Infer

variable {watch : Watch} {level : Nat} {ctx : Context} {scope : List Symbol} {fine : String → Prop}

def Types (ctx : Context) (state : Inference) (typed : TypedExpr) : Prop :=
  ∀ final : Inference, state.Follows final ctx.aliases → (typed.close final.store).Comparable →
    WellTyped (final.globals ctx.aliases) (ctx.assumes final.store) (typed.close final.store)

structure Found (watch : Watch) (ctx : Context) (level : Nat) (state : Inference)
    (expr : Term) (typed : TypedExpr) (later : Inference) : Prop where
  moves : watch.Moves level state later
  erased : typed.erase = expr
  holds : watch.Holds later level typed.type
  derives : Derives later ctx typed
  types (alone : watch.alone) : Types ctx later typed
  notes (dated : state.Dated) : Notes state [typed] later

structure FoundAll (watch : Watch) (ctx : Context) (level : Nat) (state : Inference)
    (exprs : List Term) (typed : List TypedExpr) (later : Inference) :
    Prop where
  moves : watch.Moves level state later
  erased : typed.map Expr.erase = exprs
  holds : ∀ expr ∈ typed, watch.Holds later level expr.type
  derives : ∀ expr ∈ typed, Derives later ctx expr
  types (alone : watch.alone) : ∀ expr ∈ typed, Types ctx later expr
  notes (dated : state.Dated) : Notes state typed later

theorem Types.later {later : Inference} {typed : TypedExpr} (types : Types ctx state typed)
    (alone : watch.alone) (moves : watch.Moves level state later) : Types ctx later typed :=
  fun final follows comparable => types final (moves.follows alone follows) comparable

section

variable {middle later : Inference} {exprs' : List Term} {typed typed' : List TypedExpr}

theorem FoundAll.nil (good : watch.Good state) : FoundAll watch ctx level state [] [] state :=
  ⟨good.refl level, rfl, forall_mem_nil _, forall_mem_nil _, fun _ => forall_mem_nil _,
    fun _ => .refl state⟩

theorem Found.single {expr : Term} {typed : TypedExpr}
    (found : Found watch ctx level state expr typed later) :
    FoundAll watch ctx level state [expr] [typed] later :=
  ⟨found.moves, congrArg (fun erased => [erased]) found.erased, forall_mem_singleton.mpr found.holds,
    forall_mem_singleton.mpr found.derives, fun alone => forall_mem_singleton.mpr (found.types alone),
    found.notes⟩

theorem FoundAll.append (first : FoundAll watch ctx level state exprs typed middle)
    (second : FoundAll watch ctx level middle exprs' typed' later) :
    FoundAll watch ctx level state (exprs ++ exprs') (typed ++ typed') later where
  moves := first.moves.trans second.moves
  erased := by rw [map_append, first.erased, second.erased]
  holds := forall_mem_append.mpr
    ⟨fun expr mem => second.moves.holds (first.holds expr mem), second.holds⟩
  derives := forall_mem_append.mpr
    ⟨fun expr mem => (first.derives expr mem).later second.moves.reached, second.derives⟩
  types alone := forall_mem_append.mpr
    ⟨fun expr mem => (first.types alone expr mem).later alone second.moves, second.types alone⟩
  notes dated := (first.notes dated).trans (second.notes ((first.notes dated).dated dated))

theorem FoundAll.after (all : FoundAll watch ctx level state exprs typed middle)
    (quiet : watch.Quiet level middle later) : FoundAll watch ctx level state exprs typed later where
  moves := all.moves.trans quiet
  erased := all.erased
  holds expr mem := quiet.holds (all.holds expr mem)
  derives expr mem := (all.derives expr mem).later quiet.reached
  types alone expr mem := (all.types alone expr mem).later alone quiet.toMoves
  notes dated := (all.notes dated).after quiet.notes

theorem FoundAll.hold_types (all : FoundAll watch ctx level state exprs typed later) :
    ∀ type ∈ typed.map Expr.type, watch.Holds later level type :=
  forall_mem_map.mpr all.holds

end

structure Located (watch : Watch) (fine : String → Prop) (ctx : Context) (level : Nat) (scope : List Symbol)
    (state : Inference) (expr : Term) : Prop where
  fits : watch.Fits ctx state level scope
  deep : watch.base ≤ level
  placed : Scoped fine ctx.aliases.length scope expr
  plain (alone : watch.alone) : expr.PlainPatterns

namespace Located

variable {expr child : Term}

section

variable (here : Located watch fine ctx level scope state expr)
include here

theorem after {later : Inference}
    (moves : watch.Moves level state later) : Located watch fine ctx level scope later expr :=
  { here with fits := here.fits.after moves }

theorem deeper : Located watch fine ctx (level + 1) scope state expr :=
  { here with fits := here.fits.deeper, deep := Nat.le_succ_of_le here.deep }

theorem part {ctx' : Context} {level' : Nat} (names : List Symbol)
    (mem : (names, child) ∈ expr.parts) (fits : watch.Fits ctx' state' level' (names ++ scope))
    (same : ctx'.aliases = ctx.aliases) (deep : watch.base ≤ level') :
    Located watch fine ctx' level' (names ++ scope) state' child :=
  ⟨fits, deep, same ▸ here.placed.part names mem,
    fun alone => (here.plain alone).part (mem_map_of_mem mem)⟩

theorem inner_at (mem : ([], child) ∈ expr.parts) (fits : watch.Fits ctx state' level scope) :
    Located watch fine ctx level scope state' child :=
  here.part [] mem fits rfl here.deep

theorem inner (mem : ([], child) ∈ expr.parts) :
    Located watch fine ctx level scope state child :=
  here.inner_at mem here.fits

end

end Located

def Discovers (watch : Watch) (fine : String → Prop) (expr : Term) : Prop :=
  ∀ {ctx : Context} {level : Nat} {scope : List Symbol} {state : Inference},
    Located watch fine ctx level scope state expr →
      Infers (Infer.expr ctx level expr) state (Found watch ctx level state expr)

section

variable {whole : Term} (parts : ∀ expr ∈ exprs, ([], expr) ∈ whole.parts)
  (each : ∀ expr ∈ exprs, Discovers watch fine expr)
include parts each

theorem exprs_found (here : Located watch fine ctx level scope state whole) :
    Infers (Infer.exprs ctx level exprs) state (FoundAll watch ctx level state exprs) := by
  induction exprs generalizing state with
  | nil => exact .pure (.nil here.fits.good)
  | cons first rest ih =>
    rw [Infer.exprs]
    refine .bind (each first (.head _) (here.inner (parts first (.head _)))) fun _ _ first => ?_
    exact .map (ih (fun expr mem => parts expr (.tail _ mem)) (fun expr mem => each expr (.tail _ mem))
      (here.after first.moves)) fun _ _ rest => first.single.append rest

theorem alike_found (here : Located watch fine ctx level scope state whole)
    (holds : watch.Holds state level type) :
    Infers (alike ctx level type exprs) state fun typed later =>
      FoundAll watch ctx level state exprs typed later ∧ ∀ expr ∈ typed, later.Same type expr.type := by
  induction exprs generalizing state with
  | nil => exact .pure ⟨.nil here.fits.good, forall_mem_nil _⟩
  | cons first rest ih =>
    rw [Infer.alike]
    refine .bind (each first (.head _) (here.inner (parts first (.head _)))) fun _ _ first => ?_
    refine .bind (unify_moves first.moves.good (first.moves.holds holds) first.holds _)
      fun _ _ ⟨unified, same⟩ => ?_
    have first := first.single.after unified
    refine .map (ih (fun expr mem => parts expr (.tail _ mem)) (fun expr mem => each expr (.tail _ mem))
      (here.after first.moves) (first.moves.holds holds)) fun _ _ ⟨rest, rest_same⟩ => ?_
    exact ⟨first.append rest, forall_mem_cons.mpr ⟨same.later rest.moves.reached, rest_same⟩⟩

end

section

variable {α : Type} {whole child : Term} {post : α → Inference → Prop}
  (here : Located watch fine ctx level scope state whole) (mem : ([], child) ∈ whole.parts)
  (ih : Discovers watch fine child)
include here mem ih

theorem operand_found {rest : TypedExpr → InferM α} (holds : ∀ state, watch.Holds state level type)
    (next : ∀ child' later, FoundAll watch ctx level state [child] [child'] later →
      later.Same type child'.type → Infers (rest child') later post) :
    Infers (do
      let child ← Infer.expr ctx level child
      unify type child.type child.span
      rest child) state post := by
  refine .bind (ih (here.inner mem)) fun child' _ child => ?_
  refine .bind (unify_moves child.moves.good (holds _) child.holds _) fun _ later ⟨unified, same⟩ => ?_
  exact next child' later (child.single.after unified) same

theorem content_found {con : Constructor} {rest : TypedExpr → Ty → InferM α}
    (next : ∀ child' type later, FoundAll watch ctx level state [child] [child'] later →
      later.Same (.app con type) child'.type → watch.Holds later level type → Infers (rest child' type) later post) :
    Infers (do
      let child ← Infer.expr ctx level child
      let type ← fresh level
      unify (.app con type) child.type child.span
      rest child type) state post := by
  refine .bind (ih (here.inner mem)) fun child' _ child => ?_
  refine .bind (fresh_moves child.moves.good here.deep) fun type _ ⟨made, type_holds⟩ => ?_
  refine .bind (unify_moves made.good (Watch.holds_app.mpr type_holds) (made.holds child.holds) _)
    fun _ later ⟨unified, same⟩ => ?_
  exact next child' type later (child.single.after (made.trans unified)) same (unified.holds type_holds)

end

theorem function_fits (fits : watch.Fits ctx state level scope) (name : Symbol)
    (params_hold : ∀ param ∈ params, watch.Holds state level param.name.type)
    (returned_holds : watch.Holds state level returned) :
    watch.Holds state level (Bound.function params returned) ∧
      watch.Fits ((ctx.bindAll params).bind name (Bound.function params returned)) state level
        ((params.map Binder.erase).map Binder.name ++ [name] ++ scope) := by
  have holds : watch.Holds state level (Bound.function params returned) := by
    refine Watch.holds_function (fun type mem => ?_) returned_holds
    obtain ⟨param, there, rfl⟩ := mem_map.mp mem
    exact params_hold param there
  have inner := fits.bindAll params fun param mem => (params_hold param mem).scheme
  refine ⟨holds, (inner.bind name holds.scheme).visible_of fun _ mem => ?_⟩
  simp only [mem_append, mem_cons] at mem ⊢
  grind

theorem types_of_derives {typed : TypedExpr} (derives : Derives state ctx typed)
    (simple : typed.hasScheme = false) (parts : ∀ part ∈ typed.parts,
      Types (part.1.foldl (fun ctx bound => ctx.bind bound.symbol bound.type) ctx) state part.2) :
    Types ctx state typed := by
  intro final follows comparable
  have inner {inner : TypedExpr} (mem : ([], inner) ∈ typed.parts := by simp [Expr.parts]) :
      WellTyped (final.globals ctx.aliases) (ctx.assumes final.store) (inner.close final.store) :=
    parts _ mem final follows (comparable.part (mem_map_of_mem mem))
  cases derives with
  | var | letIn | letRec | letTuple => cases simple
  | @lit _ _ _ value =>
    obtain ⟨_, plain⟩ := value.ty_prim
    exact .lit (plain ▸ rfl)
  | @unary _ _ _ op _ _ same =>
    obtain ⟨_, plain⟩ := op.operand_prim
    have closed : final.store.closed op.operand = op.operand := plain ▸ rfl
    exact .unary inner ((follows.type_eq same).trans closed) closed
  | binary known _ _ lhs_same rhs_same =>
    obtain ⟨_, rfl⟩ := BinaryOp.operand_prim known
    exact .binary inner inner known (follows.type_eq lhs_same) (follows.type_eq rhs_same)
  | @compare _ _ span op lhs rhs unknown _ _ same =>
    refine .compare inner inner unknown ?_ ?_ rfl
    · exact (lhs.type_close final.store).trans (follows.type_eq same).symm
    · exact BinaryOp.compares_of_accepts (comparable ⟨span, op, (lhs.close final.store).type⟩
        (mem_append_right _ (.head _)))
  | @cond _ _ _ _ yes _ _ _ _ test_same same =>
    exact .cond inner inner inner
      (follows.type_eq test_same) (yes.type_close final.store) (follows.type_eq same)
  | @apply _ _ _ callee args _ _ same =>
    rw [Expr.close_apply]
    refine .apply inner (forall_mem_map.mpr fun arg mem => inner (by simp [Expr.parts, mem])) ?_
    refine (callee.type_close final.store).trans ((follows.leaves.keeps.closed_eq same).trans ?_)
    rw [Store.closed_function, List.map_map, List.map_map]
    exact congrArg (Ty.function · _) (map_congr_left fun arg _ => (arg.type_close final.store).symm)
  | tuple =>
    rw [Expr.close_tuple]
    refine .tuple (forall_mem_map.mpr fun element mem => inner (by simp [Expr.parts, mem]))
      ((Store.closed_tuple _ _).trans ?_)
    rw [List.map_map, List.map_map]
    exact congrArg Ty.tuple (map_congr_left fun element _ => (element.type_close final.store).symm)
  | @arrayMake _ _ _ _ element _ size_same =>
    exact .arrayMake inner (follows.type_eq size_same) inner
      (congrArg Ty.array (element.type_close final.store).symm)
  | arrayLit _ same =>
    rw [Expr.close_arrayLit]
    exact .arrayLit (forall_mem_map.mpr fun element mem => inner (by simp [Expr.parts, mem]))
      (forall_mem_map.mpr fun element mem => follows.type_eq (same element mem))
      (Store.closed_app final.store .array _)
  | arrayLen _ same => exact .arrayLen inner (follows.type_eq same) rfl
  | arrayGet _ array_same _ index_same =>
    exact .arrayGet inner (follows.type_eq array_same) inner (follows.type_eq index_same)
  | arraySet _ array_same _ index_same _ value_same =>
    have array_eq := (follows.type_eq array_same).trans (final.store.closed_app .array _)
    rw [← follows.type_eq value_same] at array_eq
    exact .arraySet inner array_eq inner (follows.type_eq index_same) inner rfl
  | @some _ _ _ element =>
    exact .some inner (congrArg Ty.option (element.type_close final.store).symm)
  | none => exact .none rfl
  | @matchOption _ _ _ binder _ someArm noneArm _ plain target_same hinted _ _ same =>
    have some_typed := parts ([binder.name], someArm) (by simp [Expr.parts]) final follows
      comparable.part
    have assumes_eq : (ctx.bind binder.name.symbol binder.name.type).assumes final.store =
        (binder.name.symbol.number, ⟨final.store.closed binder.name.type, []⟩) :: ctx.assumes final.store := by
      rw [← plain]
      rfl
    change WellTyped _ ((ctx.bind binder.name.symbol binder.name.type).assumes final.store) _ at some_typed
    rw [assumes_eq] at some_typed
    rw [Expr.close_matchOption]
    exact .matchOption inner (follows.type_eq target_same) (describes_final hinted follows)
      some_typed inner (someArm.type_close final.store) (follows.type_eq same)
  | @typed _ _ _ child _ _ hinted =>
    have child_eq := child.type_close final.store
    have described := describes_final hinted follows
    rw [← child_eq] at described
    exact .typed inner described child_eq.symm

theorem FoundAll.node {later : Inference} {inner : List TypedExpr} {expr : Term} {typed : TypedExpr}
    (all : FoundAll watch ctx level state exprs inner later) (derives : Derives later ctx typed)
    (holds : watch.Holds later level typed.type) (erased : typed.erase = expr)
    (parts : typed.parts = inner.map (Prod.mk [])) (simple : typed.hasScheme = false)
    (full : typed.element? = none) :
    Found watch ctx level state expr typed later where
  moves := all.moves
  erased := erased
  holds := holds
  derives := derives
  types alone := by
    refine types_of_derives derives simple fun _ mem => ?_
    rw [parts] at mem
    obtain ⟨inner, there, rfl⟩ := mem_map.mp mem
    exact all.types alone inner there
  notes dated := (all.notes dated).node (by simp [parts]) (Expr.ref?_of_hasScheme simple) full

/-! ### Expressions that bind a name to a type scheme -/

section

variable {named later : Inference} {span : Span} {bound body : TypedExpr}

theorem types_letIn (alone : watch.alone) (fits : watch.Fits ctx named level scope)
    (binds : Binds watch named ctx level binder bound.type)
    (bound_types : Types ctx named bound) (moves : watch.Moves level named later)
    (body_types : Types (ctx.bind binder.name.symbol binder.name.type) later body) :
    Types ctx later (.letIn ⟨span, body.type⟩ binder bound body) := by
  intro final follows comparable
  have at_named := moves.follows alone follows
  have bound_eq := bound.type_close final.store
  rw [Expr.close_letIn]
  refine .letIn (bound_types final at_named comparable.part) ?_ ?_
    (binds.quantifies alone fits at_named) (body_types final follows comparable.part)
    (body.type_close final.store).symm
  · exact (binds.closed_eq alone at_named.leaves).trans bound_eq.symm
  · rw [bound_eq]
    exact describes_final binds.hinted at_named

theorem types_letRec {name : Symbol} {scheme : Ty} {result : Option Annotation} {rest : TypedExpr}
    (alone : watch.alone) (fits : watch.Fits ctx named level scope)
    (binds : Binds watch named ctx level ⟨⟨name, scheme⟩, none⟩ (Bound.function params returned))
    (plain : (Bound.function params returned).generics = [])
    (params_hinted : ∀ param ∈ params, Hinted named ctx param.hint param.name.type)
    (result_hinted : Hinted named ctx result returned) (same : named.Same returned body.type)
    (body_types : Types ((ctx.bindAll params).bind name (Bound.function params returned)) named body)
    (moves : watch.Moves level named later) (rest_types : Types (ctx.bind name scheme) later rest) :
    Types ctx later (.letRec ⟨span, rest.type⟩ ⟨name, scheme⟩ params result body rest) := by
  intro final follows comparable
  have at_named := moves.follows alone follows
  have scheme_eq := binds.closed_eq alone at_named.leaves
  have body_eq := at_named.type_eq same
  have body_typed := body_types final ((ctx.aliases_bindAll params).symm ▸ at_named) comparable.part
  rw [Expr.close_letRec]
  refine .letRec ?_ ?_ ?_ ?_ (binds.quantifies alone fits at_named)
    (rest_types final follows comparable.part) (rest.type_close final.store).symm
  · intro param mem
    obtain ⟨param, there, rfl⟩ := mem_map.mp mem
    exact describes_final (params_hinted param there) at_named
  · rw [body_eq]
    exact describes_final result_hinted at_named
  · have aliases_eq : ((ctx.bindAll params).bind name (Bound.function params returned)).aliases =
        ctx.aliases := ctx.aliases_bindAll params
    rw [aliases_eq, ctx.assumes_function name plain, ← scheme_eq] at body_typed
    exact body_typed
  · rw [body_eq, Bound.function, List.map_map]
    refine scheme_eq.trans ((final.store.closed_function _ returned).trans ?_)
    rw [List.map_map]
    rfl

theorem exists_binds {binders : List (Binder Bound Annotation)}
    (lengths : types.length = binders.length)
    (binds : ∀ pair ∈ binders.zip types, Binds watch state ctx level pair.1 pair.2)
    (mem : binder ∈ binders) :
    ∃ type, Binds watch state ctx level binder type := by
  rw [← map_fst_zip (Nat.le_of_eq lengths.symm)] at mem
  obtain ⟨pair, there, rfl⟩ := mem_map.mp mem
  exact ⟨pair.2, binds pair there⟩

theorem elements_spec (good : state.Good) (fits : ctx.At state level scope)
    {binders : List (Binder Symbol Annotation)} (lengths : types.length = binders.length)
    (within : ∀ hint ∈ binders.flatMap (fun binder => binder.hint.toList), hint.Within ctx.aliases.length)
    (mono : ∀ type ∈ types, state.store.Mono (level + 1) type) :
    Infers (elements ctx level binders types) state fun binders' later =>
      state.Steps later ∧ binders'.map Binder.erase = binders ∧
        ∀ binder ∈ binders', later.store.Scheme level binder.name.type := by
  have fits : Watch.unwatched.Fits ctx state level scope := .of_at good fits
  have holds (type : Ty) (mem : type ∈ types) : Watch.unwatched.Holds state (level + 1) type :=
    Watch.holds_unwatched (mono type mem)
  refine (elements_moves fits (Nat.zero_le _) lengths within nofun (fun type mem => (holds type mem).ripe fits)
    fun _ => holds).weaken fun binders' later ⟨moves, erased, _, binds⟩ => ?_
  refine ⟨moves.steps, erased, fun binder mem n here => ?_⟩
  rw [← erased, length_map] at lengths
  obtain ⟨type, known⟩ := exists_binds lengths binds mem
  exact (known.scheme.vars n here).mono

theorem closed_types (alone : watch.alone) {binders : List (Binder Bound Annotation)}
    (lengths : types.length = binders.length)
    (binds : ∀ pair ∈ binders.zip types, Binds watch state ctx level pair.1 pair.2)
    (leaves : state.store.Leaves final.store) :
    types.map final.store.closed = binders.map fun binder => final.store.closed binder.name.type :=
  calc types.map final.store.closed = ((binders.zip types).map Prod.snd).map final.store.closed := by
        rw [map_snd_zip (Nat.le_of_eq lengths)]
    _ = ((binders.zip types).map Prod.fst).map fun binder => final.store.closed binder.name.type := by
        rw [List.map_map, List.map_map]
        exact map_congr_left fun pair mem => ((binds pair mem).closed_eq alone leaves).symm
    _ = binders.map fun binder => final.store.closed binder.name.type := by
        rw [map_fst_zip (Nat.le_of_eq lengths.symm)]

theorem types_letTuple {binders : List (Binder Bound Annotation)} (alone : watch.alone)
    (fits : watch.Fits ctx named level scope) (lengths : types.length = binders.length)
    (binds : ∀ pair ∈ binders.zip types, Binds watch named ctx level pair.1 pair.2)
    (bound_types : Types ctx named bound) (same : named.Same bound.type (.tuple types))
    (moves : watch.Moves level named later) (body_types : Types (ctx.bindAll binders) later body) :
    Types ctx later (.letTuple ⟨span, body.type⟩ binders bound body) := by
  intro final follows comparable
  have at_named := moves.follows alone follows
  have quantified : (binders.map (Binder.close final.store)).zip
      (binders.map fun binder => binder.name.type.generics) =
      binders.map fun binder => (binder.close final.store, binder.name.type.generics) :=
    zip_map' ..
  have body_typed := body_types final (ctx.aliases_bindAll binders ▸ follows) comparable.part
  rw [Context.aliases_bindAll, Context.assumes_bindAll] at body_typed
  have lengths' : (binders.map fun binder => binder.name.type.generics).length =
      (binders.map (Binder.close final.store)).length := by simp
  rw [Expr.close_letTuple]
  refine .letTuple (bound_types final at_named comparable.part) ?_
    (fun binder mem => ?_) lengths' (fun pair mem => ?_) ?_ (body.type_close final.store).symm
  · rw [List.map_map]
    refine (bound.type_close final.store).trans ((at_named.leaves.keeps.closed_eq same).trans ?_)
    rw [Store.closed_tuple, closed_types alone lengths binds at_named.leaves]
    rfl
  · obtain ⟨binder, there, rfl⟩ := mem_map.mp mem
    obtain ⟨type, known⟩ := exists_binds lengths binds there
    have described := describes_final known.hinted at_named
    rw [← known.closed_eq alone at_named.leaves] at described
    exact described
  · rw [quantified] at mem
    obtain ⟨binder, there, rfl⟩ := mem_map.mp mem
    obtain ⟨type, known⟩ := exists_binds lengths binds there
    exact known.quantifies alone fits at_named
  · rw [quantified, List.map_map]
    exact body_typed

end

/-! ### Each kind of expression -/

section

variable {span : Span} {bound body : Term} {binder : Binder Symbol Annotation}

theorem discovers_var {ref : Reference} : Discovers watch fine (.var span ref) := by
  intro _ _ _ _ here
  refine .map (use_moves here.fits here.deep fun _ target => here.placed.bound rfl target)
    fun used later spec => ?_
  obtain ⟨type, _⟩ := used
  obtain ⟨moves, holds, takes, target, order, notes⟩ := spec
  exact ⟨moves, by simp [Expr.erase, Expr.map, target, order], holds, .var takes.uses,
    fun alone _ follows _ => .var (takes.refers alone (here.fits.after moves) follows),
    fun dated => notes dated _⟩

theorem discovers_binary {lhs rhs : Term} (lhs_ih : Discovers watch fine lhs) (rhs_ih : Discovers watch fine rhs) :
    Discovers watch fine (.binary span op lhs rhs) := by
  intro _ level _ _ here
  refine .bind (lhs_ih (here.inner (.head _))) fun lhs' _ lhs => ?_
  refine .bind (rhs_ih ((here.after lhs.moves).inner (.tail _ (.head _)))) fun rhs' _ rhs => ?_
  have both := lhs.single.append rhs.single
  split
  · next type known =>
    obtain ⟨_, rfl⟩ := BinaryOp.operand_prim known
    refine .bind (unify_moves both.moves.good (watch.holds_prim _ level _) (both.holds lhs' (by simp)) _) ?_
    rintro _ _ ⟨first, lhs_same⟩
    have both := both.after first
    refine .map (unify_moves both.moves.good (watch.holds_prim _ level _) (both.holds rhs' (by simp)) _) ?_
    rintro _ _ ⟨second, rhs_same⟩
    have both := both.after second
    exact both.node (.binary known (both.derives lhs' (by simp)) (both.derives rhs' (by simp))
      (lhs_same.later second.reached) rhs_same) (watch.holds_prim _ level _)
      (by simp [Expr.erase, Expr.map, ← lhs.erased, ← rhs.erased]) rfl rfl rfl
  · next unknown =>
    refine .map (unify_moves both.moves.good (both.holds lhs' (by simp)) (both.holds rhs' (by simp)) _) ?_
    rintro _ later ⟨unified, same⟩
    have both := both.after unified
    exact both.node (.compare unknown (both.derives lhs' (by simp)) (both.derives rhs' (by simp)) same)
      (watch.holds_prim later level _) (by simp [Expr.erase, Expr.map, ← lhs.erased, ← rhs.erased]) rfl rfl rfl

theorem discovers_cond {test yes no : Term} (test_ih : Discovers watch fine test)
    (yes_ih : Discovers watch fine yes) (no_ih : Discovers watch fine no) :
    Discovers watch fine (.cond span test yes no) := by
  intro _ level _ _ here
  refine operand_found here (.head _) test_ih (fun _ => watch.holds_prim _ level _) fun test' _ test test_same => ?_
  refine .bind (yes_ih ((here.after test.moves).inner (.tail _ (.head _)))) fun yes' _ yes => ?_
  have so_far := test.append yes.single
  refine .bind (no_ih ((here.after so_far.moves).inner (.tail _ (.tail _ (.head _))))) fun no' _ no => ?_
  have all := so_far.append no.single
  refine .map (unify_moves all.moves.good (all.holds yes' (by simp)) (all.holds no' (by simp)) _) ?_
  rintro _ later ⟨unified, same⟩
  have all := all.after unified
  have onward := yes.moves.trans (no.moves.trans unified.toMoves)
  exact all.node (.cond (all.derives test' (by simp)) (all.derives yes' (by simp)) (all.derives no' (by simp))
    (test_same.later onward.reached) same) (all.holds yes' (by simp))
    (by simpa [Expr.erase, Expr.map] using all.erased) rfl rfl rfl

theorem discovers_letIn (bound_ih : Discovers watch fine bound) (body_ih : Discovers watch fine body) :
    Discovers watch fine (.letIn span binder bound body) := by
  intro _ level _ _ here
  have deeper := here.deeper
  refine .bind (bound_ih (deeper.inner (.head _))) fun bound' _ bound => ?_
  refine .bind (checkHint_moves (deeper.fits.after bound.moves) deeper.deep here.placed.hints bound.holds _) ?_
  rintro _ _ ⟨checked, hinted⟩
  have moves := bound.moves.trans checked.toMoves
  have known := here.fits.later (Nat.le_succ level) moves
  refine .bind (generalize_binds known ((checked.holds bound.holds).ripe known) hinted binder.name) ?_
  rintro scheme _ ⟨general, binds, generalized, _⟩
  have known := known.after general.toMoves
  refine .map (body_ih (here.part [binder.name] (by simp [Expr.parts])
    (known.bind binder.name binds.scheme) rfl here.deep)) fun body' later body => ?_
  refine ⟨(moves.shallower (Nat.le_succ level)).trans (general.toMoves.trans body.moves),
    by simp [Expr.erase, Expr.map, ← bound.erased, ← body.erased], body.holds,
    .letIn (bound.derives.later checked.reached) hinted (generalized.later body.moves.reached) body.derives,
    fun alone => ?_, fun dated => ?_⟩
  · exact types_letIn alone known binds (((bound.types alone).later alone checked.toMoves).later
      alone general.toMoves) body.moves (body.types alone)
  · have notes := ((bound.notes dated).after checked.notes).after general.notes
    exact (notes.trans (body.notes (notes.dated dated))).node (by simp [Expr.parts]) rfl rfl

theorem discovers_letRec {name : Symbol} {params : List (Binder Symbol Annotation)} {result : Option Annotation}
    {rest : Term} (body_ih : Discovers watch fine body) (rest_ih : Discovers watch fine rest) :
    Discovers watch fine (.letRec span name params result body rest) := by
  intro ctx level _ _ here
  rw [expr_letRec]
  have deeper := here.deeper
  refine .bind (signature_moves deeper.fits deeper.deep here.placed.hints) fun signed _ spec => ?_
  obtain ⟨params', returned⟩ := signed
  obtain ⟨signed, rfl, params_known, returned_holds, hinted⟩ := spec
  obtain ⟨function_holds, inner⟩ := function_fits (deeper.fits.after signed) name
    (fun param mem => (params_known param mem).1) returned_holds
  refine .bind (body_ih (here.part _ (.head _) inner (ctx.aliases_bindAll params') deeper.deep))
    fun body' _ body => ?_
  refine .bind (unify_moves body.moves.good (body.moves.holds returned_holds) body.holds _) ?_
  rintro _ unified_state ⟨unified, same⟩
  have moves := body.moves.trans unified.toMoves
  have known := here.fits.later (Nat.le_succ level) (signed.toMoves.trans moves)
  refine .bind (generalize_binds known ((moves.holds function_holds).ripe known) hinted_none name) ?_
  rintro scheme _ ⟨general, binds, generalized, _⟩
  have known := known.after general.toMoves
  refine .map (rest_ih (here.part _ (.tail _ (.head _)) (known.bind name binds.scheme) rfl
    here.deep)) fun rest' later rest => ?_
  have result_hinted : Hinted unified_state ctx result body'.type := fun hint mem =>
    (hinted hint mem).imp fun _ => And.imp_right fun kept => (kept.later moves.reached).trans same
  have to_named := moves.reached.trans general.reached
  refine ⟨((signed.toMoves.trans moves).shallower (Nat.le_succ level)).trans (general.toMoves.trans rest.moves),
    by simp [Expr.erase, Expr.map, Binder.erase, ← body.erased, ← rest.erased], rest.holds,
    .letRec function_holds.mono.generics (fun param mem => (params_known param mem).2.later moves.reached)
      result_hinted (body.derives.later unified.reached) same (generalized.later rest.moves.reached)
      rest.derives, fun alone => ?_, fun dated => ?_⟩
  · exact types_letRec alone known binds function_holds.mono.generics
      (fun param mem => (params_known param mem).2.later to_named) (hinted.later to_named)
      (same.later general.reached) (((body.types alone).later alone unified.toMoves).later alone general.toMoves)
      rest.moves (rest.types alone)
  · have notes := ((signed.notes.trans (body.notes (signed.notes.dated dated))).after unified.notes).after
      general.notes
    exact (notes.trans (rest.notes (notes.dated dated))).node (by simp [Expr.parts]) rfl rfl

theorem discovers_letTuple {binders : List (Binder Symbol Annotation)} (bound_ih : Discovers watch fine bound)
    (body_ih : Discovers watch fine body) : Discovers watch fine (.letTuple span binders bound body) := by
  intro ctx level _ _ here
  have deeper := here.deeper
  refine .bind (bound_ih (deeper.inner (.head _))) fun bound' _ bound => ?_
  refine .bind (freshAll_moves bound.moves.good deeper.deep binders.length) ?_
  rintro types _ ⟨made, lengths, types_hold⟩
  refine .bind (unify_moves made.good (made.holds bound.holds) (Watch.holds_tuple types_hold) _) ?_
  rintro _ _ ⟨unified, same⟩
  have made := made.trans unified
  have moves := bound.moves.trans made.toMoves
  have known := here.fits.later (Nat.le_succ level) moves
  have types_known (type : Ty) (mem : type ∈ types) := unified.holds (types_hold type mem)
  refine .bind (elements_moves known deeper.deep lengths here.placed.hints (fun alone => (here.plain alone).binders)
    (fun type mem => (types_known type mem).ripe known) fun _ => types_known)
    fun binders' _ spec => ?_
  obtain ⟨elements, rfl, parted, binds⟩ := spec
  have known := known.after elements.toMoves
  rw [length_map] at lengths
  have schemes (binder : Binder Bound Annotation) (mem : binder ∈ binders') :=
    (exists_binds lengths binds mem).elim fun _ known => known.scheme
  refine .map (body_ih (here.part _ (.tail _ (.head _)) (known.bindAll binders' schemes)
    (ctx.aliases_bindAll binders') here.deep)) fun body' later body => ?_
  refine ⟨(moves.shallower (Nat.le_succ level)).trans (elements.toMoves.trans body.moves),
    by simp [Expr.erase, Expr.map, Binder.erase, ← bound.erased, ← body.erased], body.holds,
    .letTuple (bound.derives.later made.reached) same (elements.toMoves.trans body.moves).reached
      (parted.later body.moves.reached) body.derives, fun alone => ?_, fun dated => ?_⟩
  · exact types_letTuple alone known lengths binds
      (((bound.types alone).later alone made.toMoves).later alone elements.toMoves) (same.later elements.reached)
      body.moves (body.types alone)
  · have notes := ((bound.notes dated).after made.notes).after elements.notes
    exact (notes.trans (body.notes (notes.dated dated))).node (by simp [Expr.parts]) rfl rfl

theorem discovers_apply {callee : Term} {args : List Term} (callee_ih : Discovers watch fine callee)
    (args_ih : ∀ arg ∈ args, Discovers watch fine arg) : Discovers watch fine (.apply span callee args) := by
  intro _ _ _ _ here
  refine .bind (callee_ih (here.inner (.head _))) fun callee' _ callee => ?_
  refine .bind (exprs_found (by simp +contextual [Expr.parts]) args_ih (here.after callee.moves)) fun _ _ args => ?_
  have all := callee.single.append args
  refine .bind (fresh_moves all.moves.good here.deep) ?_
  rintro returned _ ⟨made, returned_holds⟩
  have all := all.after made
  refine .map (unify_moves made.good (all.holds callee' (by simp)) (Watch.holds_function
    (fun type mem => made.holds (args.hold_types type mem)) returned_holds) _) ?_
  rintro _ later ⟨unified, same⟩
  have all := all.after unified
  exact all.node (.apply (all.derives callee' (by simp)) (fun arg mem => all.derives arg (by simp [mem])) same)
    (unified.holds returned_holds) (by simp [Expr.erase, Expr.map, ← callee.erased, ← args.erased])
    rfl rfl rfl

theorem discovers_arrayLit {elements : List Term} (ih : ∀ element ∈ elements, Discovers watch fine element) :
    Discovers watch fine (.arrayLit span elements) := by
  intro ctx _ _ _ here
  cases elements with
  | nil =>
    refine .map (freshEmpty_moves here.fits.good here.deep) ?_
    rintro type later ⟨moves, holds, notes⟩
    have derives : Derives later ctx (.arrayLit ⟨span, .array type⟩ []) :=
      .arrayLit (forall_mem_nil _) (forall_mem_nil _)
    exact ⟨moves, by simp [Expr.erase, Expr.map], Watch.holds_app.mpr holds, derives,
      fun _ => types_of_derives derives rfl (forall_mem_nil _), fun _ => notes _ rfl rfl (by rintro _ rfl; rfl)⟩
  | cons first rest =>
    refine .bind (ih first (.head _) (here.inner (.head _))) fun _ _ first => ?_
    refine .map (alike_found (by simp +contextual [Expr.parts]) (fun element mem => ih element (.tail _ mem))
      (here.after first.moves) first.holds) ?_
    rintro rest' later ⟨rest, same⟩
    have all := first.single.append rest
    exact all.node (.arrayLit all.derives (forall_mem_cons.mpr ⟨rfl, same⟩))
      (Watch.holds_app.mpr (rest.moves.holds first.holds))
      (by simp [Expr.erase, Expr.map, ← first.erased, ← rest.erased]) rfl rfl rfl

theorem discovers_arrayGet {array index : Term} (array_ih : Discovers watch fine array)
    (index_ih : Discovers watch fine index) : Discovers watch fine (.arrayGet span array index) := by
  intro _ level _ _ here
  refine content_found here (.head _) array_ih fun array' type _ array array_same type_holds => ?_
  refine operand_found (here.after array.moves) (.tail _ (.head _)) index_ih (fun _ => watch.holds_prim _ level _) ?_
  intro index' later index index_same
  have both := array.append index
  exact .pure (both.node (.arrayGet (both.derives array' (by simp)) (array_same.later index.moves.reached)
    (both.derives index' (by simp)) index_same) (index.moves.holds type_holds)
    (by simpa [Expr.erase, Expr.map] using both.erased) rfl rfl rfl)

theorem discovers_arraySet {array index value : Term} (array_ih : Discovers watch fine array)
    (index_ih : Discovers watch fine index) (value_ih : Discovers watch fine value) :
    Discovers watch fine (.arraySet span array index value) := by
  intro _ level _ _ here
  refine content_found here (.head _) array_ih fun array' type _ array array_same type_holds => ?_
  refine operand_found (here.after array.moves) (.tail _ (.head _)) index_ih (fun _ => watch.holds_prim _ level _) ?_
  intro index' _ index index_same
  have so_far := array.append index
  refine .bind (value_ih ((here.after so_far.moves).inner (.tail _ (.tail _ (.head _))))) fun value' _ value => ?_
  have onward := index.moves.trans value.moves
  refine .map (unify_moves value.moves.good (onward.holds type_holds) value.holds _) ?_
  rintro _ later ⟨stored, value_same⟩
  have all := (so_far.append value.single).after stored
  exact all.node (.arraySet (all.derives array' (by simp)) (array_same.later (onward.trans stored).reached)
    (all.derives index' (by simp)) (index_same.later (value.moves.trans stored).reached)
    (all.derives value' (by simp)) value_same) (watch.holds_prim later level _)
    (by simpa [Expr.erase, Expr.map] using all.erased) rfl rfl rfl

theorem discovers_matchOption {target someArm noneArm : Term} (target_ih : Discovers watch fine target)
    (some_ih : Discovers watch fine someArm) (none_ih : Discovers watch fine noneArm) :
    Discovers watch fine (.matchOption span target binder someArm noneArm) := by
  intro ctx _ _ _ here
  refine content_found here (.head _) target_ih fun target' type _ so_far target_same type_holds => ?_
  refine .bind (checkHint_moves (here.fits.after so_far.moves) here.deep here.placed.hints type_holds _) ?_
  rintro _ _ ⟨checked, hinted⟩
  have so_far := so_far.after checked
  have bound_holds := checked.holds type_holds
  refine .bind (some_ih (here.part [binder.name] (by simp [Expr.parts])
    ((here.fits.after so_far.moves).bind binder.name bound_holds.scheme) rfl here.deep)) fun some' _ someArm => ?_
  have moves := so_far.moves.trans someArm.moves
  refine .bind (none_ih ((here.after moves).inner (.tail _ (.tail _ (.head _))))) fun none' _ noneArm => ?_
  refine .map (unify_moves noneArm.moves.good (noneArm.moves.holds someArm.holds) noneArm.holds _) ?_
  rintro _ later ⟨chosen, same⟩
  have from_some := noneArm.moves.trans chosen.toMoves
  have from_hint := someArm.moves.trans from_some
  have derives : Derives later ctx
      (.matchOption ⟨span, some'.type⟩ target' ⟨⟨binder.name, type⟩, binder.hint⟩ some' none') :=
    .matchOption ((so_far.derives target' (by simp)).later from_hint.reached) type_holds.mono.generics
      (target_same.later (checked.toMoves.trans from_hint).reached) (hinted.later from_hint.reached)
      (someArm.derives.later from_some.reached) (noneArm.derives.later chosen.reached) same
  refine ⟨so_far.moves.trans from_hint, ?_, from_some.holds someArm.holds, derives,
    fun alone => types_of_derives derives rfl fun part mem => ?_, fun dated => ?_⟩
  · have target_erased := so_far.erased
    simp [Expr.erase, Expr.map, ← someArm.erased, ← noneArm.erased] at target_erased ⊢
    exact target_erased
  · simp only [Expr.parts, mem_cons, not_mem_nil, or_false] at mem
    rcases mem with rfl | rfl | rfl
    · exact (so_far.types alone target' (by simp)).later alone from_hint
    · exact (someArm.types alone).later alone from_some
    · exact (noneArm.types alone).later alone chosen.toMoves
  · have notes := (so_far.notes dated).trans (someArm.notes ((so_far.notes dated).dated dated))
    exact ((notes.trans (noneArm.notes (notes.dated dated))).after chosen.notes).node (by simp [Expr.parts]) rfl rfl

end

theorem expr_found (expr : Term) : Discovers watch fine expr := by
  induction expr using Expr.induction with
  | lit _ value =>
    intro _ level _ state here
    refine .pure ((FoundAll.nil here.fits.good).node .lit ?_ rfl rfl rfl rfl)
    obtain ⟨_, plain⟩ := value.ty_prim
    exact plain ▸ watch.holds_prim state level _
  | var _ _ => exact discovers_var
  | unary _ op operand ih =>
    intro _ level _ state here
    obtain ⟨_, plain⟩ := op.operand_prim
    have holds state : watch.Holds state level op.operand := plain ▸ watch.holds_prim state level _
    refine operand_found here (.head _) ih (fun _ => holds _) fun operand' later operand same => ?_
    exact .pure (operand.node (.unary (operand.derives operand' (.head _)) same) (holds _)
      (by simpa [Expr.erase, Expr.map] using operand.erased) rfl rfl rfl)
  | binary _ _ _ _ lhs_ih rhs_ih => exact discovers_binary lhs_ih rhs_ih
  | cond _ _ _ _ test_ih yes_ih no_ih => exact discovers_cond test_ih yes_ih no_ih
  | letIn _ _ _ _ bound_ih body_ih => exact discovers_letIn bound_ih body_ih
  | letRec _ _ _ _ _ _ body_ih rest_ih => exact discovers_letRec body_ih rest_ih
  | letTuple _ _ _ _ bound_ih body_ih => exact discovers_letTuple bound_ih body_ih
  | apply _ _ _ callee_ih args_ih => exact discovers_apply callee_ih args_ih
  | tuple _ elements ih =>
    intro _ _ _ _ here
    refine .map (exprs_found (by simp [Expr.parts]) ih here) fun _ later elements => ?_
    exact elements.node (.tuple elements.derives) (Watch.holds_tuple elements.hold_types)
      (by simp [Expr.erase, Expr.map, ← elements.erased]) rfl rfl rfl
  | arrayMake _ size element size_ih element_ih =>
    intro _ level _ _ here
    refine operand_found here (.head _) size_ih (fun _ => watch.holds_prim _ level _) fun size' _ size size_same => ?_
    refine .map (element_ih ((here.after size.moves).inner (.tail _ (.head _)))) fun element' later element => ?_
    have both := size.append element.single
    exact both.node (.arrayMake (both.derives size' (by simp)) (size_same.later element.moves.reached) element.derives)
      (Watch.holds_app.mpr element.holds) (by simpa [Expr.erase, Expr.map] using both.erased) rfl rfl rfl
  | arrayLit _ _ ih => exact discovers_arrayLit ih
  | arrayLen _ array ih =>
    intro _ level _ _ here
    refine content_found here (.head _) ih fun array' _ later array same _ => ?_
    exact .pure (array.node (.arrayLen (array.derives array' (.head _)) same) (watch.holds_prim later level _)
      (by simpa [Expr.erase, Expr.map] using array.erased) rfl rfl rfl)
  | arrayGet _ _ _ array_ih index_ih => exact discovers_arrayGet array_ih index_ih
  | arraySet _ _ _ _ array_ih index_ih value_ih => exact discovers_arraySet array_ih index_ih value_ih
  | some _ element ih =>
    intro _ _ _ _ here
    refine .map (ih (here.inner (.head _))) fun element' _ element => ?_
    exact element.single.node (.some element.derives) (Watch.holds_app.mpr element.holds)
      (by simp [Expr.erase, Expr.map, ← element.erased]) rfl rfl rfl
  | none _ =>
    intro _ _ _ _ here
    refine .map (freshEmpty_moves here.fits.good here.deep) ?_
    rintro type later ⟨moves, holds, notes⟩
    exact ⟨moves, rfl, Watch.holds_app.mpr holds, .none, fun _ => types_of_derives .none rfl (forall_mem_nil _),
      fun _ => notes _ rfl rfl (by rintro _ rfl; rfl)⟩
  | matchOption _ _ _ _ _ target_ih some_ih none_ih => exact discovers_matchOption target_ih some_ih none_ih
  | typed span child hint ih =>
    intro _ _ _ _ here
    refine .bind (ih (here.inner (.head _))) fun child' _ child => ?_
    rw [← bind_assoc]
    refine .map (unify_annotated_moves (here.fits.after child.moves) here.deep
      (here.placed.hints hint (by simp [Expr.hints])) child.holds span) ?_
    rintro _ later ⟨unified, hinted⟩
    have all := child.single.after unified
    exact all.node (.typed (all.derives child' (by simp)) hinted) (all.holds child' (by simp))
      (by simp [Expr.erase, Expr.map, ← child.erased]) rfl rfl rfl

end Infer

end MiddleEnd
