import MiddleEnd.Proofs.Source.Safety
import MiddleEnd.Proofs.Ty.General

/-! Which variables are generalized. Inference goes by levels; the variables that it turns into
placeholders are those that cannot be reached from the types around the binding. -/

namespace MiddleEnd

open List

variable {level : Nat} {α : Type} {ctx : Context} {computation : InferM α} {state : Inference}
  {exprs : List Term} {claim : Call → Prop} {spec : α → Inference → Prop}
  {next : α → Inference → List Call}

namespace Infer

/-- A type that is about to be generalized at a level, and the types around its binding. -/
structure Call where
  context : Context
  level : Nat
  type : Ty
  state : Inference

namespace Call

def scheme (call : Call) : Ty := (call.state.store.generalize call.level call.type).2

/-- The variables that count as generalized after the call. -/
def later (call : Call) : Store := (call.state.store.generalize call.level call.type).1

/-- The types of the binders around the binding, of the aliases and of the externals. -/
def around (call : Call) : List Ty :=
  call.context.locals.map Prod.snd ++ call.context.aliases ++
    call.state.externals.entries.map fun entry => entry.2.type

def Reaches (call : Call) (n : Nat) : Prop :=
  ∃ type ∈ call.around, ∃ start ∈ type.vars, call.state.store.cells.Reaches start n

/-- The placeholders are the variables of the type that cannot be reached from around the binding. -/
structure Exact (call : Call) : Prop where
  generics {n : Nat} : n ∈ call.scheme.generics ↔
    n ∈ (call.state.store.expand call.type).vars ∧ ¬ call.Reaches n
  frozen {n : Nat} : call.later.isGeneralized n = true ↔
    call.state.store.isGeneralized n = true ∨ n ∈ call.scheme.generics

end Call

def after {α : Type} (computation : InferM α) (state : Inference)
    (next : α → Inference → List Call) : List Call :=
  match computation.run state with
  | .ok (value, later) => next value later
  | .error _ => []

def elementCalls (ctx : Context) (level : Nat) (state : Inference) :
    List (Binder Symbol Annotation) → List Ty → List Call
  | binder :: binders, type :: types =>
    after (checkHint ctx (level + 1) binder.hint type binder.name.span) state fun _ state =>
      ⟨ctx, level, type, state⟩ :: after (generalize level type) state fun _ state =>
        elementCalls ctx level state binders types
  | _, _ => []

mutual
/-- The types that inference generalizes in an expression, in the order in which it comes to them. It
may stop at an error before it comes to all. -/
def calls (ctx : Context) (level : Nat) (state : Inference) :
    Expr Symbol Reference Annotation Span → List Call
  | .lit _ _ | .var _ _ | .none _ => []
  | .unary _ _ operand => calls ctx level state operand
  | .binary _ _ lhs rhs =>
    calls ctx level state lhs ++ after (expr ctx level lhs) state fun _ state =>
      calls ctx level state rhs
  | .cond _ test yes no =>
    calls ctx level state test ++ after (do
        let test ← expr ctx level test
        unify .bool test.type test.span) state fun _ state =>
      calls ctx level state yes ++ after (expr ctx level yes) state fun _ state =>
        calls ctx level state no
  | .letIn _ binder bound body =>
    calls ctx (level + 1) state bound ++ after (do
        let bound ← expr ctx (level + 1) bound
        checkHint ctx (level + 1) binder.hint bound.type binder.name.span
        return bound.type) state fun type state =>
      ⟨ctx, level, type, state⟩ :: after (generalize level type) state fun scheme state =>
        calls (ctx.bind binder.name scheme) level state body
  | .letRec _ name params result body rest =>
    after (signature ctx (level + 1) params result) state fun (params, returned) state =>
      let type := Bound.function params returned
      let inner := (ctx.bindAll params).bind name type
      calls inner (level + 1) state body ++ after (do
          let body ← expr inner (level + 1) body
          unify returned body.type body.span) state fun _ state =>
        ⟨ctx, level, type, state⟩ :: after (generalize level type) state fun scheme state =>
          calls (ctx.bind name scheme) level state rest
  | .letTuple _ binders bound body =>
    calls ctx (level + 1) state bound ++ after (do
        let bound ← expr ctx (level + 1) bound
        let types ← freshAll (level + 1) binders.length
        unify bound.type (.tuple types) bound.span
        return types) state fun types state =>
      elementCalls ctx level state binders types ++
        after (elements ctx level binders types) state fun binders state =>
          calls (ctx.bindAll binders) level state body
  | .apply _ callee args =>
    calls ctx level state callee ++ after (expr ctx level callee) state fun _ state =>
      callsOf ctx level state args
  | .tuple _ elements => callsOf ctx level state elements
  | .arrayMake _ size element =>
    calls ctx level state size ++ after (do
        let size ← expr ctx level size
        unify .int size.type size.span) state fun _ state =>
      calls ctx level state element
  | .arrayLit _ elements =>
    match elements with
    | [] => []
    | first :: rest =>
      calls ctx level state first ++ after (expr ctx level first) state fun first state =>
        callsAlike ctx level first.type state rest
  | .arrayLen _ array => calls ctx level state array
  | .arrayGet _ array index =>
    calls ctx level state array ++ after (do
        let array ← expr ctx level array
        let element ← fresh level
        unify (.array element) array.type array.span) state fun _ state =>
      calls ctx level state index
  | .arraySet _ array index value =>
    calls ctx level state array ++ after (do
        let array ← expr ctx level array
        let element ← fresh level
        unify (.array element) array.type array.span) state fun _ state =>
      calls ctx level state index ++ after (do
          let index ← expr ctx level index
          unify .int index.type index.span) state fun _ state =>
        calls ctx level state value
  | .some _ element => calls ctx level state element
  | .matchOption _ target binder someArm noneArm =>
    calls ctx level state target ++ after (do
        let target ← expr ctx level target
        let element ← fresh level
        unify (.option element) target.type target.span
        checkHint ctx level binder.hint element binder.name.span
        return element) state fun element state =>
      let inner := ctx.bind binder.name element
      calls inner level state someArm ++ after (expr inner level someArm) state fun _ state =>
        calls ctx level state noneArm
  | .typed _ child _ => calls ctx level state child
def callsOf (ctx : Context) (level : Nat) (state : Inference) :
    List (Expr Symbol Reference Annotation Span) → List Call
  | [] => []
  | first :: rest =>
    calls ctx level state first ++ after (expr ctx level first) state fun _ state =>
      callsOf ctx level state rest
def callsAlike (ctx : Context) (level : Nat) (type : Ty) (state : Inference) :
    List (Expr Symbol Reference Annotation Span) → List Call
  | [] => []
  | first :: rest =>
    calls ctx level state first ++ after (do
        let first ← expr ctx level first
        unify type first.type first.span) state fun _ state =>
      callsAlike ctx level type state rest
end

/-! ### Variables in reach -/

variable {scope : List Symbol} {type : Ty} {fine : String → Prop}

def rooted (ctx : Context) (level : Nat) : Watch :=
  ⟨False, ctx.locals.map Prod.snd ++ ctx.aliases, level + 1⟩

theorem holds_rooted (mono : state.store.Mono level type) {level' : Nat}
    (reached : ∀ n ∈ (state.store.expand type).vars, (rooted ctx level').Rooted state n) :
    (rooted ctx level').Holds state level type := by
  refine ⟨mono.covers, fun n mem => ⟨mono.levels n mem, False.elim,
    .inr (reached n mem)⟩, fun n mem => ?_⟩
  rw [mono.plain] at mem
  cases mem

theorem fits_rooted (good : state.Good) (fits : ctx.At state level scope) :
    (rooted ctx level).Fits ctx state (level + 1) scope where
  known := fits.deeper
  good entry mem := holds_rooted (good entry mem) fun n here =>
    ⟨entry.2.type, mem_append_right _ (mem_map_of_mem mem), here⟩
  aliases type mem := holds_rooted (fits.aliases type mem) fun n here =>
    ⟨type, mem_append_left _ (mem_append_right _ mem), here⟩
  locals entry mem := by
    refine ⟨fun start there => ?_, False.elim⟩
    refine holds_rooted ((fits.locals entry mem start there).mono (Nat.le_succ level))
      fun n here => ⟨entry.2, ?_, Store.mem_vars_expand.mpr ⟨start, there, here⟩⟩
    exact mem_append_left _ (mem_append_left _ (mem_map_of_mem mem))

theorem scheme_around (good : state.Good) (fits : ctx.At state level scope) {around : Ty}
    (mem : around ∈ Call.around ⟨ctx, level, type, state⟩) : state.store.Scheme level around := by
  rw [Call.around, mem_append, mem_append, mem_map, mem_map] at mem
  rcases mem with (⟨entry, there, rfl⟩ | mem) | ⟨entry, there, rfl⟩
  · exact fits.locals entry there
  · exact ((fits.aliases around mem).mono (Nat.zero_le level)).scheme
  · exact ((good entry there).mono (Nat.zero_le level)).scheme

theorem reaches_iff_level_le (good : state.Good) (fits : ctx.At state level scope)
    (holds : (rooted ctx level).Holds state (level + 1) type) {n : Nat}
    (mem : n ∈ (state.store.expand type).vars) :
    Call.Reaches ⟨ctx, level, type, state⟩ n ↔ state.store.level n ≤ level := by
  constructor
  · rintro ⟨_, there, start, here, reaches⟩
    have behind := Store.mem_expand_of_reaches (Store.link?_of_mem_expand mem) reaches
    exact (scheme_around good fits there start here).levels n behind
  · intro shallow
    rcases (holds.vars n mem).tied with deep | ⟨root, there, here⟩
    · exact absurd (Nat.le_trans deep shallow) (Nat.not_succ_le_self level)
    · obtain ⟨start, start_mem, behind⟩ := Store.mem_vars_expand.mp here
      exact ⟨root, there, start, start_mem, Store.reaches_of_mem_expand behind⟩

theorem exact_of_holds (good : state.Good) (fits : ctx.At state level scope)
    (holds : (rooted ctx level).Holds state (level + 1) type) :
    Call.Exact ⟨ctx, level, type, state⟩ := by
  have deeper {n : Nat} := @Store.mem_generics_generalize state.store level type holds.mono.plain n
  constructor
  · intro n
    refine deeper.trans (and_congr_right fun mem => ?_)
    rw [reaches_iff_level_le good fits holds mem, Nat.not_le]
  · intro n
    rw [Call.scheme, deeper]
    by_cases mem : n ∈ (state.store.expand type).vars.filter
        fun n => decide (level < state.store.level n)
    · have made := Store.Covers.expand holds.covers n (mem_filter.mp mem).1
      refine iff_of_true (Store.isGeneralized_foldl_freeze (.inr ⟨mem, made⟩)) (.inr ?_)
      simpa using mem
    · rw [Call.later, Store.generalize, Store.isGeneralized_foldl_freeze_of_not_mem mem]
      rw [mem_filter, decide_eq_true_eq] at mem
      simp [mem]

theorem forall_after (meets : Infers computation state spec)
    (each : ∀ value later, spec value later → ∀ call ∈ next value later, claim call) :
    ∀ call ∈ after computation state next, claim call := by
  unfold after
  split
  · next run => exact each _ _ (meets.of_run run)
  · exact forall_mem_nil _

theorem generalize_rooted (good : state.Good) (fits : ctx.At state level scope)
    (mono : state.store.Mono (level + 1) type) :
    Infers (generalize level type) state fun scheme later =>
      state.Steps later ∧ later.store.Scheme level scheme ∧ ∀ {found : Ty},
        (rooted ctx level).Holds state (level + 1) found →
          (rooted ctx level).Holds later (level + 1) found := by
  refine (generalize_spec good fits mono).with_run fun scheme later run spec => ?_
  cases run
  exact ⟨spec.1, spec.2.1, holds_generalize_of_not_alone not_false⟩

theorem elementCalls_exact (good : state.Good) (fits : ctx.At state level scope)
    {binders : List (Binder Symbol Annotation)} {types : List Ty}
    (within : ∀ hint ∈ binders.flatMap (fun binder => binder.hint.toList),
      hint.Within ctx.aliases.length)
    (hold : ∀ type ∈ types, (rooted ctx level).Holds state (level + 1) type) :
    ∀ call ∈ elementCalls ctx level state binders types, call.Exact := by
  induction binders generalizing state types with
  | nil =>
    rw [elementCalls]
    · exact forall_mem_nil _
    · exact nofun
  | cons _ _ ih =>
    cases types with
    | nil => exact forall_mem_nil _
    | cons type _ =>
      rw [flatMap_cons] at within
      rw [elementCalls]
      refine forall_after (checkHint_moves (fits_rooted good fits) (Nat.le_refl _)
        (fun hint mem => within hint (mem_append_left _ mem)) (hold type (.head _)) _)
        fun _ _ ⟨moves, _⟩ => ?_
      have known := fits.later moves.steps
      have holds := moves.holds (hold type (.head _))
      refine forall_mem_cons.mpr ⟨exact_of_holds moves.good.good known holds, ?_⟩
      refine forall_after (generalize_rooted moves.good.good known holds.mono)
        fun _ later ⟨steps, _, kept⟩ => ?_
      exact ih steps.good (known.later steps) (fun hint mem => within hint (mem_append_right _ mem))
        fun other mem => kept (moves.holds (hold other (.tail _ mem)))

theorem forall_then {first : List Call} (before : ∀ call ∈ first, claim call)
    (meets : Infers computation state spec)
    (each : ∀ value later, spec value later → ∀ call ∈ next value later, claim call) :
    ∀ call ∈ first ++ after computation state next, claim call :=
  forall_mem_append.mpr ⟨before, forall_after meets each⟩

theorem unify_expr_moves {expr : Term}
    (here : Located .unwatched fine ctx level scope state expr) (holds : Watch.unwatched.Holds state level type) :
    Infers (do
      let typed ← Infer.expr ctx level expr
      unify type typed.type typed.span) state fun _ later => Watch.unwatched.Moves level state later := by
  refine .bind (expr_found expr here) fun typed _ found => ?_
  refine (unify_moves found.moves.good (found.moves.holds holds) found.holds _).weaken fun _ _ spec => ?_
  exact found.moves.trans spec.1

theorem unify_app_moves {expr : Term}
    (here : Located .unwatched fine ctx level scope state expr) (con : Constructor) :
    Infers (do
      let typed ← Infer.expr ctx level expr
      let element ← fresh level
      unify (.app con element) typed.type typed.span) state fun _ later => Watch.unwatched.Moves level state later := by
  refine .bind (expr_found expr here) fun typed _ found => ?_
  refine .bind (fresh_moves found.moves.good here.deep) fun element _ spec => ?_
  obtain ⟨made, holds⟩ := spec
  refine (unify_moves made.good (Watch.holds_app.mpr holds) (made.holds found.holds) _).weaken fun _ _ spec => ?_
  exact found.moves.trans (made.trans spec.1)

def CallsExact (fine : String → Prop) (expr : Term) : Prop :=
  ∀ {ctx : Context} {level : Nat} {scope : List Symbol} {state : Inference},
    Located .unwatched fine ctx level scope state expr → ∀ call ∈ calls ctx level state expr, call.Exact

section

variable {whole : Term} (parts : ∀ expr ∈ exprs, ([], expr) ∈ whole.parts)
  (each : ∀ expr ∈ exprs, CallsExact fine expr)
include parts each

theorem callsOf_exact (here : Located .unwatched fine ctx level scope state whole) :
    ∀ call ∈ callsOf ctx level state exprs, call.Exact := by
  induction exprs generalizing state with
  | nil => exact forall_mem_nil _
  | cons first _ ih =>
    have first_here := here.inner (parts first (.head _))
    rw [callsOf]
    refine forall_then (each first (.head _) first_here) (expr_found first first_here) fun _ _ first => ?_
    exact ih (fun expr mem => parts expr (.tail _ mem)) (fun expr mem => each expr (.tail _ mem))
      (here.after first.moves)

theorem callsAlike_exact (here : Located .unwatched fine ctx level scope state whole)
    (holds : Watch.unwatched.Holds state level type) :
    ∀ call ∈ callsAlike ctx level type state exprs, call.Exact := by
  induction exprs generalizing state with
  | nil => exact forall_mem_nil _
  | cons first _ ih =>
    have first_here := here.inner (parts first (.head _))
    rw [callsAlike]
    refine forall_then (each first (.head _) first_here) (unify_expr_moves first_here holds) fun _ _ moves => ?_
    exact ih (fun expr mem => parts expr (.tail _ mem)) (fun expr mem => each expr (.tail _ mem))
      (here.after moves) (moves.holds holds)

end

theorem expr_rooted {expr : Term} (good : state.Good)
    (fits : ctx.At state level scope) (placed : Scoped fine ctx.aliases.length scope expr) :
    Infers (Infer.expr ctx (level + 1) expr) state fun typed later =>
      (rooted ctx level).Moves (level + 1) state later ∧
        (rooted ctx level).Holds later (level + 1) typed.type :=
  (expr_found expr ⟨fits_rooted good fits, Nat.le_refl _, placed, False.elim⟩).weaken
    fun _ _ found => ⟨found.moves, found.holds⟩

section

variable {span : Span} {bound body : Term} {binder : Binder Symbol Annotation}

theorem callsExact_letIn (bound_ih : CallsExact fine bound) (body_ih : CallsExact fine body) :
    CallsExact fine (.letIn span binder bound body) := by
  intro ctx level scope state here
  have bound_here : Located _ fine ctx (level + 1) scope state bound := here.deeper.inner (.head _)
  have known := here.fits.known
  have fits := fits_rooted here.fits.good.good known
  have bound_spec : Infers (do
      let bound ← Infer.expr ctx (level + 1) bound
      checkHint ctx (level + 1) binder.hint bound.type binder.name.span
      return bound.type) state fun type later =>
        (rooted ctx level).Moves (level + 1) state later ∧
          (rooted ctx level).Holds later (level + 1) type := by
    refine .bind (expr_rooted here.fits.good.good known bound_here.placed) ?_
    rintro bound _ ⟨moves, holds⟩
    refine .map (checkHint_moves (fits.after moves) (Nat.le_refl _) here.placed.hints holds _)
      fun _ _ spec => ?_
    exact ⟨moves.trans spec.1, spec.1.holds holds⟩
  rw [calls]
  refine forall_then (bound_ih bound_here) bound_spec ?_
  rintro type _ ⟨moves, holds⟩
  have known := known.later moves.steps
  refine forall_mem_cons.mpr ⟨exact_of_holds moves.good.good known holds, ?_⟩
  refine forall_after (generalize_rooted moves.good.good known holds.mono) fun scheme _ spec => ?_
  exact body_ih (here.part [binder.name] (by simp [Expr.parts])
    (.of_at spec.1.good ((known.later spec.1).bind binder.name spec.2.1)) rfl here.deep)

theorem callsExact_letRec {name : Symbol} {params : List (Binder Symbol Annotation)} {result : Option Annotation}
    {rest : Term} (body_ih : CallsExact fine body) (rest_ih : CallsExact fine rest) :
    CallsExact fine (.letRec span name params result body rest) := by
  intro ctx level _ _ here
  have fits := fits_rooted here.fits.good.good here.fits.known
  rw [calls]
  refine forall_after (signature_moves fits (Nat.le_refl _) here.placed.hints) fun signed middle spec => ?_
  obtain ⟨params', returned⟩ := signed
  obtain ⟨moves, rfl, params_known, returned_holds, -⟩ := spec
  obtain ⟨function_holds, inner⟩ := function_fits (fits.after moves) name
    (fun param mem => (params_known param mem).1) returned_holds
  have body_here := here.part _ (.head _) (.of_at moves.good.good inner.known)
    (ctx.aliases_bindAll params') (Nat.zero_le _)
  have body_spec : Infers (do
      let body ← Infer.expr ((ctx.bindAll params').bind name (Bound.function params' returned))
        (level + 1) body
      unify returned body.type body.span) middle fun _ later =>
        (rooted ctx level).Moves (level + 1) middle later := by
    refine .bind (expr_found body ⟨inner, Nat.le_refl _, body_here.placed, False.elim⟩) fun _ _ body => ?_
    refine (unify_moves body.moves.good (body.moves.holds returned_holds) body.holds _).weaken
      fun _ _ spec => ?_
    exact body.moves.trans spec.1
  refine forall_then (body_ih body_here) body_spec fun _ _ body_moves => ?_
  have known := here.fits.known.later (moves.toMoves.trans body_moves).steps
  have holds := body_moves.holds function_holds
  refine forall_mem_cons.mpr ⟨exact_of_holds body_moves.good.good known holds, ?_⟩
  refine forall_after (generalize_rooted body_moves.good.good known holds.mono) fun scheme _ spec => ?_
  exact rest_ih (here.part [name] (.tail _ (.head _))
    (.of_at spec.1.good ((known.later spec.1).bind name spec.2.1)) rfl here.deep)

theorem callsExact_letTuple {binders : List (Binder Symbol Annotation)} (bound_ih : CallsExact fine bound)
    (body_ih : CallsExact fine body) : CallsExact fine (.letTuple span binders bound body) := by
  intro ctx level scope state here
  have bound_here : Located _ fine ctx (level + 1) scope state bound := here.deeper.inner (.head _)
  have bound_spec : Infers (do
      let bound ← Infer.expr ctx (level + 1) bound
      let types ← freshAll (level + 1) binders.length
      unify bound.type (.tuple types) bound.span
      return types) state fun types later =>
        (rooted ctx level).Moves (level + 1) state later ∧ types.length = binders.length ∧
          ∀ type ∈ types, (rooted ctx level).Holds later (level + 1) type := by
    refine .bind (expr_rooted here.fits.good.good here.fits.known bound_here.placed) fun bound _ spec => ?_
    obtain ⟨moves, holds⟩ := spec
    refine .bind (freshAll_moves moves.good (Nat.le_refl (level + 1)) binders.length) ?_
    rintro types _ ⟨made, lengths, types_hold⟩
    refine .map (unify_moves made.good (made.holds holds) (Watch.holds_tuple types_hold) _)
      fun _ _ spec => ?_
    exact ⟨moves.trans (made.trans spec.1), lengths, fun type mem => spec.1.holds (types_hold type mem)⟩
  rw [calls]
  refine forall_then (bound_ih bound_here) bound_spec ?_
  rintro types _ ⟨moves, lengths, hold⟩
  have known := here.fits.known.later moves.steps
  refine forall_then (elementCalls_exact moves.good.good known here.placed.hints hold)
    (elements_spec moves.good.good known lengths here.placed.hints fun type mem => (hold type mem).mono)
    fun binders' _ spec => ?_
  obtain ⟨steps, rfl, schemes⟩ := spec
  exact body_ih (here.part _ (.tail _ (.head _))
    (.of_at steps.good ((known.later steps).bindAll binders' schemes)) (ctx.aliases_bindAll binders') here.deep)

theorem callsExact_matchOption {target someArm noneArm : Term} (target_ih : CallsExact fine target)
    (some_ih : CallsExact fine someArm) (none_ih : CallsExact fine noneArm) :
    CallsExact fine (.matchOption span target binder someArm noneArm) := by
  intro ctx level _ state here
  have target_spec : Infers (do
      let target ← Infer.expr ctx level target
      let element ← fresh level
      unify (.option element) target.type target.span
      checkHint ctx level binder.hint element binder.name.span
      return element) state fun type later =>
        Watch.unwatched.Moves level state later ∧ Watch.unwatched.Holds later level type := by
    refine content_found here (.head _) (expr_found target) fun _ type _ target _ holds => ?_
    refine .map (checkHint_moves (here.fits.after target.moves) here.deep here.placed.hints holds _)
      fun _ _ spec => ?_
    exact ⟨target.moves.trans spec.1, spec.1.holds holds⟩
  rw [calls]
  refine forall_then (target_ih (here.inner (.head _))) target_spec ?_
  rintro type _ ⟨moves, holds⟩
  have some_here := here.part [binder.name] (.tail _ (.head _))
    ((here.fits.after moves).bind binder.name holds.scheme) rfl here.deep
  refine forall_then (some_ih some_here) (expr_found someArm some_here) fun _ _ someArm => ?_
  exact none_ih ((here.after (moves.trans someArm.moves)).inner (.tail _ (.tail _ (.head _))))

end

theorem calls_exact (expr : Term) : CallsExact fine expr := by
  induction expr using Expr.induction with
  | lit | var | none => exact fun _ => forall_mem_nil _
  | unary _ _ _ ih | arrayLen _ _ ih | some _ _ ih | typed _ _ _ ih =>
    intro _ _ _ _ here
    rw [calls]
    exact ih (here.inner (.head _))
  | binary _ _ lhs _ lhs_ih rhs_ih =>
    intro _ _ _ _ here
    rw [calls]
    have inner := here.inner (.head _)
    refine forall_then (lhs_ih inner) (expr_found lhs inner) fun _ _ lhs => ?_
    exact rhs_ih ((here.after lhs.moves).inner (.tail _ (.head _)))
  | cond _ _ yes _ test_ih yes_ih no_ih =>
    intro _ level _ state here
    rw [calls]
    have inner := here.inner (.head _)
    refine forall_then (test_ih inner) (unify_expr_moves inner (Watch.holds_prim _ state level _))
      fun _ _ tested => ?_
    have here := here.after tested
    have inner := here.inner (.tail _ (.head _))
    refine forall_then (yes_ih inner) (expr_found yes inner) fun _ _ yes => ?_
    exact no_ih ((here.after yes.moves).inner (.tail _ (.tail _ (.head _))))
  | letIn _ _ _ _ bound_ih body_ih => exact callsExact_letIn bound_ih body_ih
  | letRec _ _ _ _ _ _ body_ih rest_ih => exact callsExact_letRec body_ih rest_ih
  | letTuple _ _ _ _ bound_ih body_ih => exact callsExact_letTuple bound_ih body_ih
  | apply _ callee _ callee_ih args_ih =>
    intro _ _ _ _ here
    rw [calls]
    have inner := here.inner (.head _)
    refine forall_then (callee_ih inner) (expr_found callee inner) fun _ _ callee => ?_
    exact callsOf_exact (by simp +contextual [Expr.parts]) args_ih (here.after callee.moves)
  | tuple _ _ ih =>
    intro _ _ _ _ here
    rw [calls]
    exact callsOf_exact (by simp [Expr.parts]) ih here
  | arrayMake _ _ _ size_ih element_ih =>
    intro _ level _ state here
    rw [calls]
    have inner := here.inner (.head _)
    refine forall_then (size_ih inner) (unify_expr_moves inner (Watch.holds_prim _ state level _))
      fun _ _ sized => ?_
    exact element_ih ((here.after sized).inner (.tail _ (.head _)))
  | arrayLit _ elements ih =>
    intro _ _ _ _ here
    rw [calls.eq_def]
    cases elements with
    | nil => exact forall_mem_nil _
    | cons first _ =>
      have inner := here.inner (.head _)
      refine forall_then (ih first (.head _) inner) (expr_found first inner) fun _ _ first => ?_
      exact callsAlike_exact (by simp +contextual [Expr.parts]) (fun element mem => ih element (.tail _ mem))
        (here.after first.moves) first.holds
  | arrayGet _ _ _ array_ih index_ih =>
    intro _ _ _ _ here
    rw [calls]
    have inner := here.inner (.head _)
    refine forall_then (array_ih inner) (unify_app_moves inner .array) fun _ _ moves => ?_
    exact index_ih ((here.after moves).inner (.tail _ (.head _)))
  | arraySet _ _ _ _ array_ih index_ih value_ih =>
    intro _ level _ _ here
    rw [calls]
    have inner := here.inner (.head _)
    refine forall_then (array_ih inner) (unify_app_moves inner .array) fun _ later moves => ?_
    have here := here.after moves
    have inner := here.inner (.tail _ (.head _))
    refine forall_then (index_ih inner) (unify_expr_moves inner (Watch.holds_prim _ later level _))
      fun _ _ indexed => ?_
    exact value_ih ((here.after indexed).inner (.tail _ (.tail _ (.head _))))
  | matchOption _ _ _ _ _ target_ih some_ih none_ih => exact callsExact_matchOption target_ih some_ih none_ih

end Infer

/-! ### The calls of a run that succeeds -/

namespace Expr

mutual
/-- The types of the binders whose types have been generalized, each one after its bound expression. -/
def generalized : TypedExpr → List Ty
  | lit _ _ | var _ _ | none _ => []
  | unary _ _ operand => operand.generalized
  | binary _ _ lhs rhs => lhs.generalized ++ rhs.generalized
  | cond _ test yes no => test.generalized ++ (yes.generalized ++ no.generalized)
  | letIn _ binder bound body => bound.generalized ++ binder.name.type :: body.generalized
  | letRec _ name _ _ body rest => body.generalized ++ name.type :: rest.generalized
  | letTuple _ binders bound body =>
    bound.generalized ++ (binders.map (fun binder => binder.name.type) ++ body.generalized)
  | apply _ callee args => callee.generalized ++ generalizedOf args
  | tuple _ elements => generalizedOf elements
  | arrayMake _ size element => size.generalized ++ element.generalized
  | arrayLit _ elements => generalizedOf elements
  | arrayLen _ array => array.generalized
  | arrayGet _ array index => array.generalized ++ index.generalized
  | arraySet _ array index value => array.generalized ++ (index.generalized ++ value.generalized)
  | some _ element => element.generalized
  | matchOption _ target _ someArm noneArm =>
    target.generalized ++ (someArm.generalized ++ noneArm.generalized)
  | typed _ child _ => child.generalized
def generalizedOf : List TypedExpr → List Ty
  | [] => []
  | expr :: exprs => expr.generalized ++ generalizedOf exprs
end

end Expr

namespace Infer

theorem after_of_run {value : α} {later : Inference} (run : computation.run state = .ok (value, later))
    (next : α → Inference → List Call) : after computation state next = next value later := by
  rw [after, run]

theorem elementCalls_schemes (ctx : Context) (level : Nat) (binders : List (Binder Symbol Annotation))
    (types : List Ty) (state : Inference) :
    Meets (fun _ => True) (elements ctx level binders types) state fun binders' _ =>
      (elementCalls ctx level state binders types).map Call.scheme =
        binders'.map fun binder => binder.name.type := by
  induction binders generalizing types state with
  | nil =>
    rw [elements, elementCalls]
    · exact .pure rfl
    · simp
    · simp
  | cons _ _ ih =>
    cases types with
    | nil => exact .pure rfl
    | cons _ types =>
      rw [elements]
      refine .after fun _ _ hint_run => ?_
      refine .after fun scheme later run => ?_
      refine .map (ih types later) fun binders' _ rest => ?_
      rw [elementCalls, after_of_run hint_run, map_cons, after_of_run run, rest, map_cons]
      cases run
      rfl

section

variable (each : ∀ expr ∈ exprs, ∀ state, Meets (fun _ => True) (Infer.expr ctx level expr) state
  fun typed _ => (calls ctx level state expr).map Call.scheme = typed.generalized)
include each

theorem callsOf_schemes (state : Inference) :
    Meets (fun _ => True) (Infer.exprs ctx level exprs) state fun typed _ =>
      (callsOf ctx level state exprs).map Call.scheme = Expr.generalizedOf typed := by
  induction exprs generalizing state with
  | nil => exact .pure rfl
  | cons first rest ih =>
    refine .bind_run (each first (.head _) state) fun _ _ first_run first => ?_
    refine .map (ih (fun expr mem => each expr (.tail _ mem)) _) fun _ _ rest => ?_
    rw [callsOf, map_append, first, after_of_run first_run, rest, Expr.generalizedOf]

theorem callsAlike_schemes (type : Ty) (state : Inference) :
    Meets (fun _ => True) (alike ctx level type exprs) state fun typed _ =>
      (callsAlike ctx level type state exprs).map Call.scheme = Expr.generalizedOf typed := by
  induction exprs generalizing state with
  | nil => exact .pure rfl
  | cons first rest ih =>
    refine .bind_run (each first (.head _) state) fun _ _ first_run first => ?_
    refine .after fun _ _ unify_run => ?_
    refine .map (ih (fun expr mem => each expr (.tail _ mem)) _) fun _ _ rest => ?_
    rw [callsAlike, map_append, first, after_of_run (run_bind_of_run first_run unify_run), rest,
      Expr.generalizedOf]

end

theorem calls_schemes (expr : Term) (state : Inference) :
    Meets (fun _ => True) (Infer.expr ctx level expr) state fun typed _ =>
      (calls ctx level state expr).map Call.scheme = typed.generalized := by
  induction expr using Expr.induction generalizing state level ctx with
  | lit => exact .pure rfl
  | var _ _ =>
    exact .after fun _ _ _ => .pure rfl
  | unary _ _ operand ih =>
    refine .bind (ih state) fun _ _ operand => .after fun _ _ _ => .pure ?_
    rw [calls, operand, Expr.generalized]
  | binary span op lhs rhs lhs_ih rhs_ih =>
    refine .bind_run (lhs_ih state) fun lhs' _ lhs_run lhs_schemes => ?_
    refine .bind (rhs_ih _) fun rhs' _ rhs_schemes => ?_
    have schemes : (calls ctx level state (.binary span op lhs rhs)).map Call.scheme =
        lhs'.generalized ++ rhs'.generalized := by
      rw [calls, map_append, lhs_schemes, after_of_run lhs_run, rhs_schemes]
    split
    · exact .after fun _ _ _ => .after fun _ _ _ => .pure schemes
    · exact .after fun _ _ _ => .pure schemes
  | cond _ test yes no test_ih yes_ih no_ih =>
    refine .bind_run (test_ih state) fun _ _ test_run test => ?_
    refine .after fun _ _ unify_run => ?_
    refine .bind_run (yes_ih _) fun _ _ yes_run yes => ?_
    refine .bind (no_ih _) fun _ _ no => .after fun _ _ _ => .pure ?_
    rw [calls, map_append, test, after_of_run (run_bind_of_run test_run unify_run), map_append, yes,
      after_of_run yes_run, no, Expr.generalized]
  | letIn _ _ bound body bound_ih body_ih =>
    refine .bind_run (bound_ih state) fun bound' _ bound_run bound => ?_
    refine .after fun _ _ hint_run => ?_
    refine .after fun scheme _ general_run => ?_
    refine .map (body_ih _) fun body' _ body => ?_
    rw [calls, map_append, bound, after_of_run (run_bind_of_run bound_run (run_bind_of_run hint_run rfl)),
      map_cons, after_of_run general_run, body, Expr.generalized]
    cases general_run
    rfl
  | letRec _ _ _ _ body rest body_ih rest_ih =>
    rw [expr_letRec]
    refine .after fun signed _ signature_run => ?_
    obtain ⟨_, _⟩ := signed
    refine .bind_run (body_ih _) fun body' _ body_run body => ?_
    refine .after fun _ _ unify_run => ?_
    refine .after fun scheme _ general_run => ?_
    refine .map (rest_ih _) fun rest' _ rest => ?_
    rw [calls, after_of_run signature_run, map_append, body,
      after_of_run (run_bind_of_run body_run unify_run), map_cons, after_of_run general_run, rest,
      Expr.generalized]
    cases general_run
    rfl
  | letTuple _ binders bound body bound_ih body_ih =>
    refine .bind_run (bound_ih state) fun bound' _ bound_run bound => ?_
    refine .after fun types _ fresh_run => ?_
    refine .after fun _ _ unify_run => ?_
    refine .bind_run (elementCalls_schemes ctx level binders types _) fun _ _ parts_run parts => ?_
    refine .map (body_ih _) fun body' _ body => ?_
    rw [calls, map_append, bound,
      after_of_run (run_bind_of_run bound_run (run_bind_of_run fresh_run (run_bind_of_run unify_run rfl))),
      map_append, parts, after_of_run parts_run, body, Expr.generalized]
  | apply _ callee args callee_ih args_ih =>
    refine .bind_run (callee_ih state) fun _ _ callee_run callee => ?_
    refine .bind (callsOf_schemes (fun arg mem => args_ih arg mem) _) fun _ _ args => ?_
    refine .after fun _ _ _ => .after fun _ _ _ => .pure ?_
    rw [calls, map_append, callee, after_of_run callee_run, args, Expr.generalized]
  | tuple _ elements ih =>
    refine .map (callsOf_schemes (fun element mem => ih element mem) state) fun _ _ elements => ?_
    rw [calls, elements, Expr.generalized]
  | arrayMake _ size element size_ih element_ih =>
    refine .bind_run (size_ih state) fun _ _ size_run size => ?_
    refine .after fun _ _ unify_run => ?_
    refine .map (element_ih _) fun _ _ element => ?_
    rw [calls, map_append, size, after_of_run (run_bind_of_run size_run unify_run), element,
      Expr.generalized]
  | arrayLit _ elements ih =>
    rw [calls.eq_def]
    cases elements with
    | nil =>
      exact .after fun _ _ _ => .pure rfl
    | cons first rest =>
      refine .bind_run (ih first (.head _) state) fun _ _ first_run first => ?_
      refine .map (callsAlike_schemes (fun element mem => ih element (.tail _ mem)) _ _)
        fun rest' _ rest => ?_
      dsimp only
      rw [map_append, first, after_of_run first_run, rest, Expr.generalized, Expr.generalizedOf]
  | arrayLen _ array ih =>
    refine .bind (ih state) fun _ _ array => ?_
    refine .after fun _ _ _ => .after fun _ _ _ => .pure ?_
    rw [calls, array, Expr.generalized]
  | arrayGet _ array index array_ih index_ih =>
    refine .bind_run (array_ih state) fun array' _ array_run array => ?_
    refine .after fun _ _ fresh_run => ?_
    refine .after fun _ _ unify_run => ?_
    refine .bind (index_ih _) fun index' _ index => .after fun _ _ _ => .pure ?_
    rw [calls, map_append, array,
      after_of_run (run_bind_of_run array_run (run_bind_of_run fresh_run unify_run)), index, Expr.generalized]
  | arraySet _ array index value array_ih index_ih value_ih =>
    refine .bind_run (array_ih state) fun array' _ array_run array => ?_
    refine .after fun _ _ fresh_run => ?_
    refine .after fun _ _ unify_run => ?_
    refine .bind_run (index_ih _) fun index' _ index_run index => ?_
    refine .after fun _ _ index_unify_run => ?_
    refine .bind (value_ih _) fun _ _ value => .after fun _ _ _ => .pure ?_
    rw [calls, map_append, array,
      after_of_run (run_bind_of_run array_run (run_bind_of_run fresh_run unify_run)), map_append, index,
      after_of_run (run_bind_of_run index_run index_unify_run), value, Expr.generalized]
  | some _ element ih =>
    refine .map (ih state) fun _ _ element => ?_
    rw [calls, element, Expr.generalized]
  | none _ =>
    exact .after fun _ _ _ => .pure rfl
  | matchOption _ target _ someArm noneArm target_ih some_ih none_ih =>
    refine .bind_run (target_ih state) fun _ _ target_run target => ?_
    refine .after fun element _ fresh_run => ?_
    refine .after fun _ _ unify_run => ?_
    refine .after fun _ _ hint_run => ?_
    refine .bind_run (some_ih _) fun _ _ some_run someArm => ?_
    refine .bind (none_ih _) fun _ _ noneArm => .after fun _ _ _ => .pure ?_
    rw [calls, map_append, target, after_of_run (run_bind_of_run target_run
      (run_bind_of_run fresh_run (run_bind_of_run unify_run (run_bind_of_run hint_run rfl)))),
      map_append, someArm, after_of_run some_run, noneArm, Expr.generalized]
  | typed _ child _ ih =>
    refine .bind (ih state) fun _ _ child => ?_
    refine .after fun _ _ _ => .after fun _ _ _ => .pure ?_
    rw [calls, child, Expr.generalized]

end Infer

/-- The state in which the inference of a program starts. -/
def Inference.start (settings : Settings) : Inference :=
  { externals := if settings.seedBuiltins then builtinExternals else .empty }

/-- The types that the inference of a program generalizes. -/
def Resolved.calls (program : Resolved) (settings : Settings) : List Infer.Call :=
  Infer.after (Infer.prelude program) (.start settings) fun types state =>
    Infer.calls { aliases := types } 0 state program.body

/-- Whenever a type is generalized, its placeholders are the variables that cannot be reached from
around the binding. -/
theorem Surface.generalizes_unreached {program : Surface} {resolved : Resolved}
    (resolves : program.resolve = .ok resolved) (settings : Settings) :
    (∀ call ∈ resolved.calls settings, call.Exact) ∧
      ∀ typed state, (Infer.program resolved).run (.start settings) = .ok (typed, state) →
        (resolved.calls settings).map Infer.Call.scheme = typed.generalized := by
  have placed := wellScoped_of_resolve resolves
  constructor
  · refine Infer.forall_after (Infer.prelude_spec placed (good_builtins settings.seedBuiltins))
      fun types state prepared => ?_
    exact Infer.calls_exact resolved.body
      ⟨.of_at prepared.good prepared.fits, Nat.zero_le _, prepared.placed placed, False.elim⟩
  · have schemes : Meets (fun _ => True) (Infer.program resolved) (.start settings) fun typed _ =>
        (resolved.calls settings).map Infer.Call.scheme = typed.generalized := by
      rw [Infer.program_eq]
      refine .after fun types state prelude_run => ?_
      rw [Resolved.calls, Infer.after_of_run prelude_run]
      exact Infer.calls_schemes resolved.body state
    exact fun typed state run => schemes.of_run run

/-- `let rec pair x = let y = (x, None) in y in pair 1` -/
def Surface.innerPair : Surface :=
  let name (text : String) : Ident := ⟨text, default, 0⟩
  let var (text : String) (order : Nat) : Expr Ident Mention TypeExpr Span :=
    .var default ⟨name text, order⟩
  { body :=
      .letRec default (name "pair") [⟨name "x", none⟩] none
        (.letIn default ⟨name "y", none⟩ (.tuple default [var "x" 0, .none default]) (var "y" 1))
        (.apply default (var "pair" 2) [.lit default (.int 1)]) }

/-- The inner binding has two variables, of which one is the parameter's; the outer one has both. -/
theorem Surface.generalizes_unreached_innerPair : ∃ resolved, innerPair.resolve = .ok resolved ∧
    ((resolved.calls {}).map fun call => (call.state.store.expand call.type).vars.eraseDups.length,
      (resolved.calls {}).map fun call => call.scheme.generics.eraseDups.length) = ([2, 2], [1, 2]) ∧
    ∀ call ∈ resolved.calls {}, call.Exact := by
  obtain ⟨resolved, typed, resolves, checks, test⟩ :=
    exists_of_accepted innerPair {} fun resolved _ =>
      decide (((resolved.calls {}).map fun call => (call.state.store.expand call.type).vars.eraseDups.length,
        (resolved.calls {}).map fun call => call.scheme.generics.eraseDups.length) = ([2, 2], [1, 2]))
  exact ⟨resolved, resolves, of_decide_eq_true test, (generalizes_unreached resolves {}).1⟩

end MiddleEnd
