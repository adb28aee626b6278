import MiddleEnd.Proofs.Typing.Calls
import MiddleEnd.Proofs.Typing.Solutions

/-! Inference loses no typing: it succeeds on every program that has one, and the type that it finds has
the type in every typing as an instance. -/

namespace MiddleEnd

open List

variable {globals : Globals} {type : Ty} {fine : String → Prop} {source : Term} {types : List Ty}
  {program : Resolved} {settings : Settings} {quantified : List Nat} {poly : Poly}
  {binders : List (Binder Symbol Annotation)} {polys : List Poly} {wanted : Ty} {span : Span}
  {bound body : Term} {before : Globals}

namespace Infer

variable {state : Inference} {solution : Nat → Ty} {level : Nat} {ctx : Context}
  {scope : List Symbol} {assumptions : Assumptions}

/-! ### Generalization -/

section

variable (agrees : Agrees globals assumptions solution ctx state level scope)
include agrees

theorem not_mem_of_rooted (generalizes : Generalizes globals assumptions quantified)
    {n placeholder : Nat}
    (reached : (rooted ctx level).Rooted state n)
    (mem : placeholder ∈ (solution n).generics) : placeholder ∉ quantified := by
  intro here
  obtain ⟨root, there, behind⟩ := reached
  have inside := agrees.given.solves.mem_generics mem behind
  simp only [rooted, mem_append, mem_map] at there
  rcases there with (⟨entry, there, rfl⟩ | there) | ⟨entry, there, rfl⟩
  · obtain ⟨assumed, there, -, subsumes⟩ := agrees.known.exists_of_mem there
    obtain ⟨fill, equal⟩ := subsumes fun _ => .unit
    have free := Poly.free_of_mem (equal ▸ inside fill)
    exact generalizes.locals placeholder here assumed there free
  · obtain ⟨index, found⟩ := getElem?_of_mem there
    have declared := mem_of_getElem? (agrees.known.aliases index root found)
    exact generalizes.aliases placeholder here _ declared (inside .generic)
  · exact generalizes.externals placeholder here _ _ (agrees.given.externals entry there) (inside .generic)

theorem subsumes_generalize (holds : (rooted ctx level).Holds state (level + 1) type)
    (equal : type.substVars solution = poly.type)
    (generalizes : Generalizes globals assumptions poly.quantified) :
    Subsumes solution (state.store.generalize level type).2 poly := by
  intro choice
  let replace (type : Ty) : Ty := type.substGenerics (poly.pick choice)
  have shallow (n : Nat) (mem : n ∈ (state.store.expand type).vars)
      (not_deep : ¬ level < state.store.level n) : solution n = replace (solution n) := by
    have reached := (holds.vars n mem).tied.resolve_left not_deep
    refine ((Ty.subst_self _).symm.trans (Ty.subst_congr (fun _ _ => rfl) fun _ here => ?_))
    exact (Poly.pick_eq (not_mem_of_rooted agrees generalizes reached here) choice).symm
  refine ⟨fun n => replace (solution n), ?_⟩
  calc (state.store.generalize level type).2.subst solution (fun n => replace (solution n))
      = (state.store.expand type).subst (fun n => replace (solution n)) (poly.pick choice) := by
        rw [Store.generalize, Ty.substVars, Ty.subst_subst]
        refine Ty.subst_congr (fun n mem => ?_) fun n mem => ?_
        · by_cases deep : level < state.store.level n
          · simp [deep]
          · simpa [deep] using shallow n mem deep
        · rw [holds.mono.plain] at mem
          cases mem
    _ = replace ((state.store.expand type).substVars solution) :=
        (Ty.subst_subst (state.store.expand type) solution .generic .var (poly.pick choice)).symm
    _ = replace poly.type := by rw [agrees.given.solves.expand, equal]

theorem generalize_solved (holds : (rooted ctx level).Holds state (level + 1) type) (poly : Poly)
    (equal : type.substVars solution = poly.type)
    (generalizes : Generalizes globals assumptions poly.quantified) :
    Succeeds (generalize level type) state fun scheme later =>
      Solved globals state solution later solution ∧ later.store.Scheme level scheme ∧
        Subsumes solution scheme poly := by
  have succeeds : Succeeds (generalize level type) state fun _ _ => True := .get (.set (.pure trivial))
  refine succeeds.with_run fun scheme later run _ => ?_
  obtain ⟨steps, known, -⟩ := (generalize_rooted agrees.good agrees.fits holds.mono).of_run run
  have links := (state.store.sameLinks_generalize level type).2
  have subsumes := subsumes_generalize agrees holds equal generalizes
  cases run
  exact ⟨⟨steps, fun _ _ => rfl, agrees.given.of_links agrees.good links fun _ _ => rfl⟩, known, subsumes⟩

theorem elements_solved (lengths : polys.length = binders.length)
    (within : ∀ hint ∈ binders.flatMap (fun binder => binder.hint.toList),
      hint.Within ctx.aliases.length)
    (hold : ∀ type ∈ types, (rooted ctx level).Holds state (level + 1) type)
    (equal : types.map (Ty.substVars solution) = polys.map Poly.type)
    (described : ∀ pair ∈ binders.zip polys, globals.Describes pair.1.hint pair.2.type)
    (generalizes : ∀ poly ∈ polys, Generalizes globals assumptions poly.quantified) :
    Succeeds (elements ctx level binders types) state fun binders' later =>
      ∃ solution', Solved globals state solution later solution' ∧
        Forall₂ (fun binder pair => binder.name.symbol = pair.1 ∧
          Subsumes solution' binder.name.type pair.2) binders'
          ((binders.zip polys).map fun pair => (pair.1.name, pair.2)) := by
  induction binders generalizing state solution types polys with
  | nil =>
    obtain rfl := length_eq_zero_iff.mp lengths
    obtain rfl := map_eq_nil_iff.mp equal
    exact .pure ⟨solution, .refl agrees.good agrees.given, .nil⟩
  | cons _ _ ih =>
    obtain ⟨poly, polys, rfl⟩ := exists_cons_of_length_eq_add_one lengths
    obtain ⟨type, types, rfl, first_equal, rest_equal⟩ := map_eq_cons_iff.mp equal
    rw [flatMap_cons] at within
    rw [zip_cons_cons, forall_mem_cons] at described
    rw [forall_mem_cons] at generalizes
    have holds := hold type (.head _)
    rw [elements]
    refine .bind_run (checkHint_solved agrees.deeper
      (fun hint mem => within hint (mem_append_left _ mem)) holds.mono
      (first_equal.symm ▸ described.1) _) ?_
    rintro _ _ hint_run ⟨solution', hinted⟩
    obtain ⟨moves, -⟩ := (checkHint_moves (fits_rooted agrees.good agrees.fits) (Nat.le_refl _)
      (fun hint mem => within hint (mem_append_left _ mem)) holds _).of_run hint_run
    have agrees' := agrees.later hinted
    have type_equal : type.substVars solution' = poly.type := (hinted.substVars_eq holds.mono).trans first_equal
    refine .bind_run (generalize_solved agrees' (moves.holds holds) poly type_equal generalizes.1) ?_
    rintro _ _ run ⟨generalized, scheme_known, subsumes⟩
    obtain ⟨-, -, kept⟩ := (generalize_rooted agrees'.good agrees'.fits (moves.holds holds).mono).of_run run
    have agrees'' := agrees'.later generalized
    have types_equal : types.map (Ty.substVars solution') = polys.map Poly.type := by
      rw [← rest_equal]
      exact map_congr_left fun type mem =>
        hinted.substVars_eq (hold type (.tail _ mem)).mono
    refine .bind (ih agrees'' (Nat.succ.inj lengths)
      (fun hint mem => within hint (mem_append_right _ mem))
      (fun type mem => kept (moves.holds (hold type (.tail _ mem)))) types_equal described.2
      generalizes.2) ?_
    rintro _ _ ⟨_, solved, rest⟩
    exact .pure ⟨_, hinted.trans (generalized.trans solved),
      .cons ⟨rfl, subsumes.later scheme_known solved.agrees⟩ rest⟩

end

/-! ### Expressions -/

def Finds (fine : String → Prop) (globals : Globals) (assumptions : Assumptions)
    (source : Expr Symbol Reference Annotation Span) (type : Ty) : Prop :=
  ∀ ⦃solution : Nat → Ty⦄ ⦃ctx : Context⦄ ⦃state : Inference⦄ ⦃level : Nat⦄ ⦃scope : List Symbol⦄,
    Agrees globals assumptions solution ctx state level scope →
    Scoped fine ctx.aliases.length scope source →
    Succeeds (Infer.expr ctx level source) state fun typed later =>
      ∃ solution', Covered globals state solution level typed.type type later solution'

section

variable {sources : List Term} {β : Type} {post : β → Inference → Prop}

theorem Finds.expected (finds : Finds fine globals assumptions source type)
    (agrees : Agrees globals assumptions solution ctx state level scope)
    (placed : Scoped fine ctx.aliases.length scope source) (mono : state.store.Mono level wanted)
    (equal : wanted.substVars solution = type) {rest : TypedExpr → InferM β}
    (next : ∀ typed later solution', Solved globals state solution later solution' →
      Succeeds (rest typed) later post) :
    Succeeds (do
      let typed ← Infer.expr ctx level source
      unify wanted typed.type typed.span
      rest typed) state post := by
  have wanted_covered : Covered globals state solution level wanted type state solution :=
    ⟨.refl agrees.good agrees.given, mono, equal⟩
  refine .bind (finds agrees placed) fun typed _ ⟨solution', covered⟩ => ?_
  refine .bind (unify_covered (wanted_covered.later covered.solved) covered _) fun _ later unified => ?_
  exact next typed later solution' (covered.solved.trans unified)

theorem Finds.opened {con : Constructor} (finds : Finds fine globals assumptions source (.app con type))
    (agrees : Agrees globals assumptions solution ctx state level scope)
    (placed : Scoped fine ctx.aliases.length scope source) {rest : TypedExpr → Ty → InferM β}
    (next : ∀ typed element later solution',
      Covered globals state solution level element type later solution' →
        Succeeds (rest typed element) later post) :
    Succeeds (do
      let typed ← Infer.expr ctx level source
      let element ← fresh level
      unify (.app con element) typed.type typed.span
      rest typed element) state post := by
  refine .bind (finds agrees placed) fun typed _ ⟨_, covered⟩ => ?_
  refine .bind (fresh_solved covered.solved.steps.good covered.solved.given level type)
    fun element _ ⟨solution', fresh⟩ => ?_
  refine .bind (unify_covered (fresh.app con) (covered.later fresh.solved) _) fun _ later unified => ?_
  exact next typed element later solution' ((fresh.later unified).after covered.solved)

theorem exprs_solved (lengths : types.length = sources.length)
    (finds : ∀ pair ∈ sources.zip types, Finds fine globals assumptions pair.1 pair.2)
    (agrees : Agrees globals assumptions solution ctx state level scope)
    (placed : ∀ source ∈ sources, Scoped fine ctx.aliases.length scope source) :
    Succeeds (Infer.exprs ctx level sources) state fun typed later =>
      ∃ solution', CoveredAll globals state solution level (typed.map Expr.type) types later solution' := by
  induction sources generalizing state solution types with
  | nil =>
    obtain rfl := length_eq_zero_iff.mp lengths
    exact .pure ⟨solution, .refl agrees.good agrees.given, forall_mem_nil _, rfl⟩
  | cons first rest ih =>
    obtain ⟨type, types, rfl⟩ := exists_cons_of_length_eq_add_one lengths
    rw [zip_cons_cons, forall_mem_cons] at finds
    rw [forall_mem_cons] at placed
    refine .bind (finds.1 agrees placed.1) ?_
    rintro _ _ ⟨_, first⟩
    refine .map (ih (Nat.succ.inj lengths) finds.2 (agrees.later first.solved) placed.2)
      fun _ _ rest => rest.imp fun _ => .cons first

theorem alike_solved (finds : ∀ source ∈ sources, Finds fine globals assumptions source type)
    (agrees : Agrees globals assumptions solution ctx state level scope)
    (placed : ∀ source ∈ sources, Scoped fine ctx.aliases.length scope source)
    (mono : state.store.Mono level wanted) (equal : wanted.substVars solution = type) :
    Succeeds (alike ctx level wanted sources) state fun _ later =>
      ∃ solution', Solved globals state solution later solution' := by
  induction sources generalizing state solution with
  | nil => exact .pure ⟨solution, .refl agrees.good agrees.given⟩
  | cons _ rest ih =>
    rw [forall_mem_cons] at finds placed
    refine finds.1.expected agrees placed.1 mono equal fun _ _ _ solved => ?_
    refine .map (ih finds.2 (agrees.later solved) placed.2 (solved.steps.mono mono)
      ((solved.substVars_eq mono).trans equal)) fun _ _ rest => rest.imp fun _ => solved.trans

end

theorem forall₂_params {params : List (Binder Bound Annotation)}
    (equal : (params.map fun param => param.name.type).map (Ty.substVars solution) = types) :
    Forall₂ (fun param pair => param.name.symbol = pair.1 ∧ Subsumes solution param.name.type pair.2)
      params (((params.map Binder.erase).zip types).map fun pair => (pair.1.name, ⟨pair.2, []⟩)) := by
  subst equal
  induction params with
  | nil => exact .nil
  | cons _ _ ih => exact .cons ⟨rfl, .of_eq rfl⟩ ih

theorem finds_letIn {binder : Binder Symbol Annotation}
    (bound_finds : Finds fine globals assumptions bound poly.type)
    (hinted : globals.Describes binder.hint poly.type)
    (generalizes : Generalizes globals assumptions poly.quantified)
    (body_finds : Finds fine globals ((binder.name.number, poly) :: assumptions) body type) :
    Finds fine globals assumptions (.letIn span binder bound body) type := by
  intro _ ctx _ _ scope agrees placed
  have bound_placed : Scoped fine ctx.aliases.length scope bound := placed.inner
  refine .bind_run (bound_finds agrees.deeper bound_placed) ?_
  rintro bound _ bound_run ⟨_, bound_covered⟩
  obtain ⟨moves, holds⟩ := (expr_rooted agrees.good agrees.fits bound_placed).of_run bound_run
  have agrees' := agrees.later bound_covered.solved
  refine .bind_run (checkHint_solved agrees'.deeper placed.hints bound_covered.mono
    (bound_covered.equal.symm ▸ hinted) _) ?_
  rintro _ _ hint_run ⟨_, hint_solved⟩
  obtain ⟨hint_moves, -⟩ := (checkHint_moves ((fits_rooted agrees.good agrees.fits).after moves)
    (Nat.le_refl _) placed.hints holds _).of_run hint_run
  have agrees'' := agrees'.later hint_solved
  have bound_known := bound_covered.later hint_solved
  refine .bind (generalize_solved agrees'' (hint_moves.holds holds) poly bound_known.equal generalizes) ?_
  rintro _ _ ⟨generalized, scheme_known, subsumes⟩
  refine .map (body_finds ((agrees''.later generalized).bind binder.name scheme_known subsumes)
    (placed.part [binder.name] (by simp [Expr.parts]))) ?_
  rintro body _ ⟨_, body_covered⟩
  exact ⟨_, body_covered.after (bound_known.solved.trans generalized)⟩

theorem finds_letRec {name : Symbol} {params : List (Binder Symbol Annotation)}
    {result : Option Annotation} {rest : Term} {returned : Ty} (lengths : types.length = params.length)
    (params_hinted : ∀ pair ∈ params.zip types, globals.Describes pair.1.hint pair.2)
    (result_hinted : globals.Describes result returned)
    (body_finds : Finds fine globals ((name.number, ⟨.function types returned, []⟩) :: assumptions.bindAll
      ((params.zip types).map fun pair => (pair.1.name, ⟨pair.2, []⟩))) body returned)
    (generalizes : Generalizes globals assumptions quantified)
    (rest_finds : Finds fine globals ((name.number, ⟨.function types returned, quantified⟩) :: assumptions)
      rest type) :
    Finds fine globals assumptions (.letRec span name params result body rest) type := by
  intro solution ctx state level scope agrees placed
  rw [expr_letRec]
  refine .bind_run (signature_solved agrees.deeper placed.hints lengths params_hinted result_hinted)
    fun signed middle signature_run spec => ?_
  obtain ⟨params', returned'⟩ := signed
  obtain ⟨_, covered, returned_equal⟩ := spec
  have fits := fits_rooted agrees.good agrees.fits
  obtain ⟨moves, rfl, params_known, returned_holds, -⟩ :=
    (signature_moves fits (Nat.le_refl _) placed.hints).of_run signature_run
  obtain ⟨function_holds, body_fits⟩ := function_fits (fits.after moves) name
    (fun param mem => (params_known param mem).1) returned_holds
  have agrees' := agrees.later covered.solved
  have function_covered := covered.function returned_holds.mono returned_equal
  have body_placed : Scoped fine ((ctx.bindAll params').bind name
      (Bound.function params' returned')).aliases.length
      ((params'.map Binder.erase).map Binder.name ++ [name] ++ scope) body :=
    (ctx.aliases_bindAll params').symm ▸ placed.part _ (.head _)
  have body_known := (agrees'.known.bindAll (forall₂_params covered.equal)).bind name (.of_eq function_covered.equal)
  refine .bind_run (body_finds ⟨agrees'.good, body_fits.known, agrees'.given, body_known⟩ body_placed)
    fun _ _ body_run ⟨_, body_covered⟩ => ?_
  have body_found := (expr_found body ⟨body_fits, Nat.le_refl _, body_placed, False.elim⟩).of_run body_run
  have returned_covered : Covered globals state solution (level + 1) returned' returned middle _ :=
    ⟨covered.solved, returned_holds.mono, returned_equal⟩
  refine .bind_run (unify_covered (returned_covered.later body_covered.solved) body_covered _)
    fun _ _ unify_run unified => ?_
  obtain ⟨unify_moves, -⟩ := (unify_moves body_found.moves.good (body_found.moves.holds returned_holds)
    body_found.holds _).of_run unify_run
  have solved := body_covered.solved.trans unified
  refine .bind (generalize_solved (agrees'.later solved)
    (unify_moves.holds (body_found.moves.holds function_holds)) ⟨.function types returned, quantified⟩
    (function_covered.later solved).equal generalizes)
    fun _ _ ⟨generalized, scheme_known, subsumes⟩ => ?_
  have solved := solved.trans generalized
  refine .map (rest_finds ((agrees'.later solved).bind name scheme_known subsumes)
    (placed.part [name] (.tail _ (.head _)))) fun _ _ ⟨_, rest_covered⟩ => ?_
  exact ⟨_, rest_covered.after (covered.solved.trans solved)⟩

theorem finds_letTuple
    (bound_finds : Finds fine globals assumptions bound (.tuple (polys.map Poly.type)))
    (lengths : polys.length = binders.length)
    (hinted : ∀ pair ∈ binders.zip polys, globals.Describes pair.1.hint pair.2.type)
    (generalizes : ∀ poly ∈ polys, Generalizes globals assumptions poly.quantified)
    (body_finds : Finds fine globals (assumptions.bindAll
      ((binders.zip polys).map fun pair => (pair.1.name, pair.2))) body type) :
    Finds fine globals assumptions (.letTuple span binders bound body) type := by
  intro _ ctx _ level scope agrees placed
  have bound_placed : Scoped fine ctx.aliases.length scope bound := placed.inner
  refine .bind_run (bound_finds agrees.deeper bound_placed) ?_
  rintro _ _ bound_run ⟨_, bound_covered⟩
  obtain ⟨moves, holds⟩ := (expr_rooted agrees.good agrees.fits bound_placed).of_run bound_run
  have count : (polys.map Poly.type).length = binders.length := (length_map _).trans lengths
  refine .bind_run (count ▸ freshAll_solved bound_covered.solved.steps.good bound_covered.solved.given
    (level + 1) (polys.map Poly.type)) ?_
  rintro _ _ fresh_run ⟨_, fresh⟩
  obtain ⟨fresh_moves, types_count, types_hold⟩ :=
    (freshAll_moves moves.good (Nat.le_refl _) binders.length).of_run fresh_run
  refine .bind_run (unify_covered (bound_covered.later fresh.solved) fresh.tuple _)
    fun _ _ unify_run unified => ?_
  obtain ⟨tuple_moves, -⟩ := (unify_moves fresh_moves.good (fresh_moves.holds holds)
    (Watch.holds_tuple types_hold) _).of_run unify_run
  have types_known := fresh.later unified
  have solved := bound_covered.solved.trans types_known.solved
  have agrees' := agrees.later solved
  refine .bind_run (elements_solved agrees' lengths placed.hints
    (fun type mem => tuple_moves.holds (types_hold type mem)) types_known.equal hinted generalizes) ?_
  rintro binders' _ elements_run ⟨_, parted, each⟩
  obtain ⟨-, rfl, schemes⟩ := (elements_spec agrees'.good agrees'.fits types_count placed.hints
    types_known.mono).of_run elements_run
  have agrees'' := agrees'.later parted
  refine .map (body_finds ⟨agrees''.good, agrees''.fits.bindAll binders' schemes, agrees''.given,
    agrees''.known.bindAll each⟩ ((ctx.aliases_bindAll binders').symm ▸
      placed.part _ (.tail _ (.head _)))) ?_
  rintro _ _ ⟨_, body_covered⟩
  exact ⟨_, body_covered.after (solved.trans parted)⟩

theorem finds_of_typing (typing : Typing globals assumptions source type) :
    Finds fine globals assumptions source type := by
  induction typing with
  | @lit _ span value =>
    intro solution _ _ level _ agrees _
    have solved := Solved.refl agrees.good agrees.given
    refine .pure ⟨solution, ?_⟩
    obtain ⟨_, plain⟩ := value.ty_prim
    exact plain ▸ solved.prim level _
  | external target declared =>
    intro solution ctx state level _ agrees _
    have known : Succeeds (targetType ctx _) state (Declared globals state solution level _) :=
      targetType_external agrees.good agrees.given declared
    exact .map (use_solved (target ▸ known)) fun _ _ covered => covered
  | bound target declared taken =>
    intro _ _ _ _ _ agrees _
    have known := targetType_bound agrees declared taken
    exact .map (use_solved (target ▸ known)) fun _ _ covered => covered
  | @unary _ _ op _ _ ih =>
    intro solution _ state level _ agrees placed
    obtain ⟨primitive, plain⟩ := op.operand_prim
    rw [Infer.expr, plain]
    have wanted := (Solved.refl agrees.good agrees.given).prim level primitive
    exact (plain ▸ ih).expected agrees placed.inner wanted.mono wanted.equal
      fun _ _ solution' solved => .pure ⟨solution', solved.prim level primitive⟩
  | binary known _ _ lhs_ih rhs_ih =>
    intro _ _ _ level _ agrees placed
    refine .bind (lhs_ih agrees placed.inner) ?_
    rintro lhs _ ⟨_, lhs_covered⟩
    refine .bind (rhs_ih (agrees.later lhs_covered.solved) placed.inner) ?_
    rintro rhs _ ⟨solution', rhs_covered⟩
    simp only [known]
    obtain ⟨_, rfl⟩ := BinaryOp.operand_prim known
    have lhs_known := lhs_covered.later rhs_covered.solved
    refine .bind (unify_covered (lhs_known.solved.prim level _) lhs_known _) fun _ _ lhs_unified => ?_
    have rhs_known := (rhs_covered.after lhs_covered.solved).later lhs_unified
    refine .map (unify_covered (rhs_known.solved.prim level _) rhs_known _) fun _ _ rhs_unified => ?_
    exact ⟨solution', (rhs_known.solved.trans rhs_unified).prim level _⟩
  | compare unknown _ _ lhs_ih rhs_ih =>
    intro _ _ _ level _ agrees placed
    refine .bind (lhs_ih agrees placed.inner) ?_
    rintro lhs _ ⟨_, lhs_covered⟩
    refine .bind (rhs_ih (agrees.later lhs_covered.solved) placed.inner) ?_
    rintro rhs _ ⟨solution', rhs_covered⟩
    simp only [unknown]
    have lhs_known := lhs_covered.later rhs_covered.solved
    refine .map (unify_covered lhs_known rhs_covered _) fun _ _ unified => ?_
    exact ⟨solution', (lhs_known.solved.trans unified).prim level .bool⟩
  | cond _ _ _ test_ih yes_ih no_ih =>
    intro _ _ state level _ agrees placed
    refine test_ih.expected agrees placed.inner (state.store.mono_prim level _) rfl
      fun _ _ _ tested => ?_
    have agrees' := agrees.later tested
    refine .bind (yes_ih agrees' placed.inner) ?_
    rintro _ _ ⟨_, yes_covered⟩
    refine .bind (no_ih (agrees'.later yes_covered.solved) placed.inner) ?_
    rintro no _ ⟨solution', no_covered⟩
    have yes_known := (yes_covered.after tested).later no_covered.solved
    refine .map (unify_covered yes_known no_covered _) fun _ _ unified => ?_
    exact ⟨solution', yes_known.later unified⟩
  | letIn _ hinted generalizes _ bound_ih body_ih => exact finds_letIn bound_ih hinted generalizes body_ih
  | letRec lengths params_hinted result_hinted _ generalizes _ body_ih rest_ih =>
    exact finds_letRec lengths params_hinted result_hinted body_ih generalizes rest_ih
  | letTuple _ lengths hinted generalizes _ bound_ih body_ih =>
    exact finds_letTuple bound_ih lengths hinted generalizes body_ih
  | @apply _ _ _ _ types type _ lengths _ callee_ih args_ih =>
    intro _ _ _ level _ agrees placed
    refine .bind (callee_ih agrees placed.inner) ?_
    rintro _ _ ⟨_, callee_covered⟩
    refine .bind (exprs_solved lengths args_ih (agrees.later callee_covered.solved)
      fun _ mem => placed.inner (by simp [Expr.parts, mem])) ?_
    rintro _ _ ⟨_, args_covered⟩
    have callee_known := callee_covered.later args_covered.solved
    refine .bind (fresh_solved callee_known.solved.steps.good callee_known.solved.given level type) ?_
    rintro _ _ ⟨solution', fresh⟩
    have args_known := args_covered.later fresh.solved
    refine .map (unify_covered (callee_known.later fresh.solved) (args_known.function fresh.mono fresh.equal) _)
      fun _ _ unified => ?_
    exact ⟨solution', (fresh.later unified).after callee_known.solved⟩
  | tuple lengths _ ih =>
    intro _ _ _ _ _ agrees placed
    refine .map (exprs_solved lengths ih agrees fun element mem => placed.inner (by simp [Expr.parts, mem]))
      fun _ _ found => found.imp fun _ covered => covered.tuple
  | arrayMake _ _ size_ih element_ih =>
    intro _ _ state level _ agrees placed
    refine size_ih.expected agrees placed.inner (state.store.mono_prim level _) rfl
      fun _ _ _ sized => ?_
    refine .map (element_ih (agrees.later sized) placed.inner)
      fun _ _ found => found.imp fun _ covered => (covered.after sized).app .array
  | @arrayLit _ _ elements type _ ih =>
    intro _ _ _ level _ agrees placed
    cases elements with
    | nil =>
      exact .map (freshEmpty_solved agrees.good agrees.given level type)
        fun _ _ found => found.imp fun _ fresh => fresh.app .array
    | cons first _ =>
      rw [forall_mem_cons] at ih
      refine .bind (ih.1 agrees placed.inner) ?_
      rintro first _ ⟨_, first_covered⟩
      refine .map (alike_solved ih.2 (agrees.later first_covered.solved)
        (fun element mem => placed.inner (by simp [Expr.parts, mem])) first_covered.mono first_covered.equal)
        fun _ _ found => found.imp fun _ alike => (first_covered.later alike).app .array
  | arrayLen _ ih =>
    intro _ _ _ level _ agrees placed
    refine ih.opened agrees placed.inner fun _ _ _ solution' covered => .pure ?_
    exact ⟨solution', covered.solved.prim level .int⟩
  | arrayGet _ _ array_ih index_ih =>
    intro _ _ _ level _ agrees placed
    refine array_ih.opened agrees placed.inner fun _ _ middle _ covered => ?_
    refine index_ih.expected (agrees.later covered.solved) placed.inner
      (middle.store.mono_prim level _) rfl fun _ _ solution' indexed => .pure ?_
    exact ⟨solution', covered.later indexed⟩
  | arraySet _ _ _ array_ih index_ih value_ih =>
    intro _ _ _ level _ agrees placed
    refine array_ih.opened agrees placed.inner fun _ _ middle _ covered => ?_
    have agrees' := agrees.later covered.solved
    refine index_ih.expected agrees' placed.inner (middle.store.mono_prim level _) rfl
      fun _ _ _ indexed => ?_
    have element_known := covered.later indexed
    refine value_ih.expected (agrees'.later indexed) placed.inner element_known.mono
      element_known.equal fun _ _ solution' solved => .pure ?_
    exact ⟨solution', (element_known.solved.trans solved).prim level .unit⟩
  | some _ ih =>
    intro _ _ _ _ _ agrees placed
    exact .map (ih agrees placed.inner)
      fun _ _ found => found.imp fun _ covered => covered.app .option
  | @none _ _ type =>
    intro _ _ _ level _ agrees _
    exact .map (freshEmpty_solved agrees.good agrees.given level type)
      fun _ _ found => found.imp fun _ fresh => fresh.app .option
  | @matchOption _ _ binder _ _ _ _ _ _ hinted _ _ target_ih some_ih none_ih =>
    intro _ _ _ _ _ agrees placed
    refine target_ih.opened agrees placed.inner fun _ element _ _ covered => ?_
    refine .bind (checkHint_solved (agrees.later covered.solved) placed.hints covered.mono
      (covered.equal.symm ▸ hinted) _) ?_
    rintro _ _ ⟨_, hint_solved⟩
    have element_known := covered.later hint_solved
    have agrees' := agrees.later element_known.solved
    refine .bind (some_ih (agrees'.bind binder.name element_known.mono.scheme (.of_eq element_known.equal))
      (placed.part [binder.name] (by simp [Expr.parts]))) ?_
    rintro _ _ ⟨_, some_covered⟩
    refine .bind (none_ih (agrees'.later some_covered.solved) placed.inner) ?_
    rintro _ _ ⟨solution', none_covered⟩
    have some_known := (some_covered.after element_known.solved).later none_covered.solved
    refine .map (unify_covered some_known none_covered _) fun _ _ unified => ?_
    exact ⟨solution', some_known.later unified⟩
  | @typed _ _ _ hint _ _ hinted ih =>
    intro _ _ _ _ _ agrees placed
    refine .bind (ih agrees placed.inner) ?_
    rintro _ _ ⟨_, child_covered⟩
    have agrees' := agrees.later child_covered.solved
    refine .bind (annotated_solved hint agrees'.good agrees'.given agrees'.fits.aliases agrees'.known.aliases
      (placed.hints hint (by simp [Expr.hints])) (hinted hint rfl)) ?_
    rintro _ _ ⟨solution', covered⟩
    have child_known := child_covered.later covered.solved
    refine .map (unify_covered covered child_known _) fun _ _ unified => ?_
    exact ⟨solution', child_known.later unified⟩

/-! ### Programs -/

theorem aliases_solved (good : state.Good) (given : Solution globals state solution) {before declared : List Ty}
    {entries : List (Alias Annotation)} (known : ∀ type ∈ before, state.store.Mono 0 type)
    (realizes : Realizes solution before declared)
    (within : ∀ (index : Nat) (entry : Alias Annotation), entries[index]? = some entry →
      entry.type.Within (before.length + index))
    (described : ∀ (index : Nat) (entry : Alias Annotation), entries[index]? = some entry →
      ∃ type, declared[before.length + index]? = some type ∧ Describes declared entry.type type) :
    Succeeds (aliases before entries) state fun types later =>
      ∃ solution', Solved globals state solution later solution' ∧ Realizes solution' types declared := by
  induction entries generalizing state solution before with
  | nil => exact .pure ⟨solution, .refl good given, realizes⟩
  | cons first _ ih =>
    obtain ⟨type, here, describes⟩ := described 0 first rfl
    rw [aliases]
    refine .bind (annotated_solved first.type good given known realizes (within 0 first rfl) describes) ?_
    rintro found _ ⟨solution', covered⟩
    have solved := covered.solved
    have shift (index : Nat) : (before ++ [found]).length + index = before.length + (index + 1) := by
      rw [length_append, length_singleton, Nat.add_assoc, Nat.add_comm 1]
    refine (ih solved.steps.good solved.given ?_ ?_ ?_ ?_).weaken
      fun _ _ found => found.imp fun _ => And.imp_left solved.trans
    · refine forall_mem_append.mpr ⟨fun type mem => solved.steps.mono (known type mem), ?_⟩
      exact fun type mem => mem_singleton.mp mem ▸ covered.mono
    · exact (realizes.later known solved.agrees).concat (here.trans (congrArg some covered.equal.symm))
    · exact fun index entry there => shift index ▸ within (index + 1) entry there
    · exact fun index entry there => shift index ▸ described (index + 1) entry there

theorem declarations_solved (good : state.Good) (given : Solution before state solution)
    {entries : List (Declaration Annotation)} (known : ∀ type ∈ types, state.store.Mono 0 type)
    (realizes : Realizes solution types globals.aliases)
    (within : ∀ entry ∈ entries, entry.type.Within types.length)
    (declared : ∀ entry ∈ entries, ∃ type, globals.externals entry.name.name = some type ∧
      Describes globals.aliases entry.type type)
    (others : ∀ name, name ∉ entries.map (fun entry => entry.name.name) →
      before.externals name = globals.externals name) :
    Succeeds (declarations types entries) state fun _ later =>
      ∃ solution', (∀ n < state.store.size, solution' n = solution n) ∧
        Solution globals later solution' := by
  induction entries generalizing state solution before with
  | nil =>
    refine .pure ⟨solution, fun _ _ => rfl, given.solves, fun entry mem => ?_⟩
    exact (others entry.1 not_mem_nil).symm.trans (given.externals entry mem)
  | cons first _ ih =>
    obtain ⟨type, first_declared, describes⟩ := declared first (.head _)
    rw [declarations]
    refine .bind (annotated_solved first.type good given known realizes (within first (.head _)) describes) ?_
    rintro found middle ⟨solution', covered⟩
    refine .modify ?_
    have solved := covered.solved
    let next : Globals :=
      { before with externals := Function.update before.externals first.name.name (some type) }
    have next_good : Inference.Good
        { middle with externals := middle.externals.insert first.name.name ⟨found, first.linkName⟩ } := by
      refine forall_mem_cons.mpr ⟨covered.mono, fun entry mem => ?_⟩
      exact solved.steps.good entry (mem_filter.mp mem).1
    have next_given : Solution next
        { middle with externals := middle.externals.insert first.name.name ⟨found, first.linkName⟩ } solution' := by
      refine ⟨solved.given.solves, forall_mem_cons.mpr ⟨?_, fun entry mem => ?_⟩⟩
      · exact (Function.update_self ..).trans (congrArg some covered.equal.symm)
      · obtain ⟨there, differs⟩ := mem_filter.mp mem
        exact (Function.update_of_ne (bne_iff_ne.mp differs) ..).trans (solved.given.externals entry there)
    refine (ih next_good next_given (fun type mem => solved.steps.mono (known type mem))
      (realizes.later known solved.agrees) (fun entry mem => within entry (.tail _ mem))
      (fun entry mem => declared entry (.tail _ mem)) fun name unused => ?_).weaken
      fun _ _ found => found.imp fun _ rest => ⟨fun n made => ?_, rest.2⟩
    · by_cases same : name = first.name.name
      · rw [same, first_declared]
        exact Function.update_self ..
      · refine (Function.update_of_ne same ..).trans (others name ?_)
        rw [map_cons, mem_cons, not_or]
        exact ⟨same, unused⟩
    · have kept := Nat.lt_of_lt_of_le made solved.steps.reached.grows.keeps.size_le
      exact (rest.1 n kept).trans (solved.agrees n made)

theorem prelude_solved (placed : program.WellScoped fine)
    (typing : program.Typing settings globals type) (good : state.Good)
    (given : Solution before state solution)
    (others : ∀ name, name ∉ program.externals.map (fun entry => entry.name.name) →
      before.externals name = globals.externals name) :
    Succeeds (prelude program) state fun types later =>
      ∃ solution', Agrees globals [] solution' { aliases := types } later 0 [] := by
  have nothing : ∀ type ∈ ([] : List Ty), state.store.Mono 0 type := forall_mem_nil _
  have alias_within (index : Nat) (entry : Alias Annotation) (here : program.aliases[index]? = some entry) :
      entry.type.Within (([] : List Ty).length + index) := by
    simpa using placed.aliases here
  have succeeds : Succeeds (prelude program) state fun types later =>
      ∃ solution', Solution globals later solution' ∧ Realizes solution' types globals.aliases := by
    have described (index : Nat) (entry : Alias Annotation) (here : program.aliases[index]? = some entry) :
        ∃ type, globals.aliases[([] : List Ty).length + index]? = some type ∧
          Describes globals.aliases entry.type type := by
      rw [length_nil, Nat.zero_add]
      exact typing.aliased here
    refine .bind_run (aliases_solved good given nothing (fun _ _ here => nomatch here) alias_within described)
      fun types first alias_run ⟨solution', solved, realizes⟩ => ?_
    obtain ⟨-, types_hold, _, rfl, length, -⟩ :=
      (aliases_moves (Watch.good_unwatched good) rfl (forall_mem_nil _) alias_within).of_run alias_run
    have types_mono (type : Ty) (mem : type ∈ types) : first.store.Mono 0 type := (types_hold type mem).mono
    refine .map (declarations_solved solved.steps.good solved.given types_mono realizes ?_ typing.declared others)
      fun _ _ ⟨solution'', agrees, given⟩ => ⟨solution'', given, realizes.later types_mono agrees⟩
    simpa [length] using placed.externals
  refine succeeds.with_run fun types later run ⟨solution', given, realizes⟩ => ?_
  have prepared := (prelude_spec placed good).of_run run
  exact ⟨solution', prepared.good, prepared.fits, given, realizes, .nil⟩

end Infer

theorem find?_builtinExternals {entry : String × External} (mem : entry ∈ builtinExternals.entries) :
    builtinExternals.find? entry.1 = some entry.2 := by
  have distinct : (builtinExternals.entries.map Prod.fst).Nodup := by decide +kernel
  exact lookup_of_mem distinct mem

/-- What is known around a program that declares nothing. -/
def Globals.library : Globals := ⟨fun name => (builtinExternals.find? name).map External.type, []⟩

theorem closed_library {name : String} (declared : Globals.library.externals name = some type) (n : Nat) :
    n ∉ type.generics := by
  obtain ⟨_, found, rfl⟩ := Option.map_eq_some_iff.mp declared
  have mono := good_builtins true _ (NameMap.mem_of_find? found)
  exact mono.generics ▸ not_mem_nil

theorem Resolved.Typing.solution_start (typing : program.Typing settings globals type) : Solution
      { globals with
        externals := fun name =>
          if name ∈ program.externals.map (fun entry => entry.name.name) then
            (builtinExternals.find? name).map External.type
          else globals.externals name }
      (.start settings) .var := by
  refine ⟨fun _ _ linked => (nomatch linked), fun entry mem => ?_⟩
  have closed : entry.2.type.substVars .var = entry.2.type := Ty.subst_self _
  rw [closed]
  change entry ∈ (if settings.seedBuiltins = true then builtinExternals else .empty).entries at mem
  split at mem
  · next seeded =>
    dsimp only
    split
    · rw [find?_builtinExternals mem]
      rfl
    · next undeclared => exact typing.builtin seeded entry mem undeclared
  · cases mem

theorem Resolved.WellScoped.program_solved (placed : program.WellScoped fine)
    (typing : program.Typing settings globals type) :
    Infer.Succeeds (Infer.program program) (.start settings) fun typed later =>
      ∃ solution, later.store.Solves solution ∧ typed.type.substVars solution = type := by
  rw [Infer.program_eq]
  refine .bind_run (Infer.prelude_solved placed typing (good_builtins settings.seedBuiltins) typing.solution_start
    fun _ undeclared => if_neg undeclared) fun _ _ run ⟨_, agrees⟩ => ?_
  have prepared := (Infer.prelude_spec placed (good_builtins settings.seedBuiltins)).of_run run
  refine (Infer.finds_of_typing typing.body agrees (prepared.placed placed)).weaken
    fun typed later ⟨solution, covered⟩ => ?_
  exact ⟨solution, covered.solved.given.solves, covered.equal⟩

/-- Inference succeeds on every program that has a typing, and the type in each typing is an instance of
the one that it finds, by a substitution that respects the links. -/
theorem Surface.infers_principal {program : Surface} {resolved : Resolved}
    (resolves : program.resolve = .ok resolved) {settings : Settings} {globals : Globals} {type : Ty}
    (typing : resolved.Typing settings globals type) :
    ∃ typed state, (Infer.program resolved).run (.start settings) = .ok (typed, state) ∧
      ∀ globals' type', resolved.Typing settings globals' type' →
        ∃ solution, state.store.Solves solution ∧ typed.type.substVars solution = type' := by
  have placed := wellScoped_of_resolve resolves
  obtain ⟨typed, state, run⟩ := (placed.program_solved typing).exists_run
  refine ⟨typed, state, run, fun globals' type' typing' => ?_⟩
  exact (placed.program_solved typing').of_run run

/-- `let rec pair x = let y = (x, None) in y in (pair 1, pair true)` -/
def Surface.twoPairs : Surface :=
  let name (text : String) : Ident := ⟨text, default, 0⟩
  let var (text : String) (order : Nat) : Expr Ident Mention TypeExpr Span :=
    .var default ⟨name text, order⟩
  { body :=
      .letRec default (name "pair") [⟨name "x", none⟩] none
        (.letIn default ⟨name "y", none⟩ (.tuple default [var "x" 0, .none default]) (var "y" 1))
        (.tuple default [.apply default (var "pair" 2) [.lit default (.int 1)],
          .apply default (var "pair" 3) [.lit default (.bool true)]]) }

def Resolved.twoPairs : Resolved :=
  let pair : Symbol := ⟨0, "pair", default⟩
  let x : Symbol := ⟨1, "x", default⟩
  let y : Symbol := ⟨2, "y", default⟩
  let var (symbol : Symbol) (order : Nat) : Expr Symbol Reference Annotation Span :=
    .var default ⟨.bound symbol, order⟩
  { body :=
      .letRec default pair [⟨x, none⟩] none
        (.letIn default ⟨y, none⟩ (.tuple default [var x 0, .none default]) (var y 1))
        (.tuple default [.apply default (var pair 2) [.lit default (.int 1)],
          .apply default (var pair 3) [.lit default (.bool true)]]) }

theorem Resolved.typing_twoPairs (first second : Ty) : Resolved.twoPairs.Typing {} .library
    (.tuple [.tuple [.int, .option first], .tuple [.bool, .option second]]) where
  length_eq := rfl
  aliased here := nomatch here
  declared := forall_mem_nil _
  builtin _ _ mem _ := congrArg (Option.map External.type) (find?_builtinExternals mem)
  body := by
    let function : Ty := .function [.generic 0] (.tuple [.generic 0, .option (.generic 1)])
    let inner : Assumptions := [(0, ⟨function, []⟩), (1, ⟨.generic 0, []⟩)]
    have tuple_typed : MiddleEnd.Typing .library inner
        (.tuple default [.var default ⟨.bound ⟨1, "x", default⟩, 0⟩, .none default])
        (.tuple [.generic 0, .option (.generic 2)]) := by
      refine .tuple rfl (forall_mem_cons.mpr ⟨?_, forall_mem_cons.mpr ⟨.none, forall_mem_nil _⟩⟩)
      exact .bound rfl rfl ⟨.generic, rfl⟩
    have inner_generalizes : Generalizes .library inner [2] := by
      refine ⟨by decide, fun n _ name type declared => ?_, fun _ _ => forall_mem_nil _⟩
      exact closed_library declared n
    have call_typed (value : Literal) (type : Ty) (order : Nat) :
        MiddleEnd.Typing .library [(0, ⟨function, [0, 1]⟩)]
          (.apply default (.var default ⟨.bound ⟨0, "pair", default⟩, order⟩) [.lit default value])
          (.tuple [value.ty, .option type]) := by
      have callee_typed : MiddleEnd.Typing .library [(0, ⟨function, [0, 1]⟩)]
          (.var default ⟨.bound ⟨0, "pair", default⟩, order⟩)
          (.function [value.ty] (.tuple [value.ty, .option type])) :=
        .bound rfl rfl ⟨fun n => if n = 0 then value.ty else type, rfl⟩
      exact .apply callee_typed rfl (forall_mem_cons.mpr ⟨.lit, forall_mem_nil _⟩)
    refine @Typing.letRec _ _ _ _ _ _ _ _ [.generic 0] (.tuple [.generic 0, .option (.generic 1)]) _ [0, 1]
      rfl (forall_mem_cons.mpr ⟨fun _ => nofun, forall_mem_nil _⟩) (fun _ => nofun) ?_ ?_ ?_
    · refine @Typing.letIn _ _ _ _ _ _ ⟨_, [2]⟩ _ tuple_typed (fun _ => nofun) inner_generalizes ?_
      exact .bound rfl rfl ⟨fun _ => .generic 1, rfl⟩
    · refine ⟨fun _ _ => forall_mem_nil _, fun n _ name type declared => ?_,
        fun _ _ => forall_mem_nil _⟩
      exact closed_library declared n
    · refine .tuple rfl (forall_mem_cons.mpr ⟨?_, forall_mem_cons.mpr ⟨?_, forall_mem_nil _⟩⟩)
      · exact call_typed (.int 1) first 2
      · exact call_typed (.bool true) second 3

/-- The types of the second parts are left open, so every choice of them is an instance. -/
theorem Surface.infers_principal_twoPairs :
    twoPairs.resolve = .ok .twoPairs ∧
    Resolved.twoPairs.Typing {} .library
      (.tuple [.tuple [.int, .option .string], .tuple [.bool, .option .unit]]) ∧
    ∃ typed state, (Infer.program .twoPairs).run (.start {}) = .ok (typed, state) ∧
      ∀ globals type, Resolved.twoPairs.Typing {} globals type →
        ∃ solution, state.store.Solves solution ∧ typed.type.substVars solution = type := by
  have resolves : twoPairs.resolve = .ok .twoPairs := rfl
  have typing := Resolved.typing_twoPairs .string .unit
  exact ⟨resolves, typing, infers_principal resolves typing⟩

end MiddleEnd
