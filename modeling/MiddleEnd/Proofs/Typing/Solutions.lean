import MiddleEnd.Proofs.Ty.General
import MiddleEnd.Proofs.Typing.Infer
import MiddleEnd.Proofs.Typing.Typings

/-! Solutions along a run of inference. A solution says what the variables of the store stand for; it
respects the links and gives everything in scope the types that it has in a given typing. The single steps
of inference succeed wherever there is one, and keep it. -/

namespace MiddleEnd

open List

variable {store : Store} {solution solution' : Nat → Ty} {type : Ty} {level : Nat}
  {aliases declared : List Ty} {globals : Globals} {state middle : Inference} {ctx : Context}
  {assumptions : Assumptions} {scope : List Symbol} {n : Nat} {poly : Poly} {scheme : Ty}
  {founds types : List Ty} {left right : Ty} {name : String} {params : List (Binder Symbol Annotation)}

/-! ### Solutions -/

section

variable {later : Store}

theorem Store.Covers.substVars_eq (covers : store.Covers type)
    (agrees : ∀ n < store.size, solution' n = solution n) :
    type.substVars solution' = type.substVars solution :=
  Ty.subst_congr (fun n mem => agrees n (covers n mem)) fun _ _ => rfl

theorem Store.Solves.of_links (solves : store.Solves solution)
    (links : ∀ n, later.link? n = store.link? n)
    (agrees : ∀ n < store.size, solution' n = solution n) : later.Solves solution' := by
  intro n target linked
  rw [links] at linked
  have covers : store.Covers target := fun _ mem => link?_vars_lt linked mem
  rw [agrees n (link?_lt linked), covers.substVars_eq agrees]
  exact solves n target linked

theorem Store.exists_freshFor (store : Store) (level : Nat) (numbers : List Nat) (solution fill : Nat → Ty) :
    ∃ solution', (∀ n < store.size, solution' n = solution n) ∧
      ∀ entry ∈ (store.freshFor level numbers).2, entry.2.substVars solution' = fill entry.1 := by
  induction numbers generalizing store solution with
  | nil => exact ⟨solution, fun _ _ => rfl, forall_mem_nil _⟩
  | cons n _ ih =>
    obtain ⟨solution', agrees, filled⟩ :=
      ih (store.fresh level).1 (Function.update solution store.size (fill n))
    rw [size_fresh] at agrees
    refine ⟨solution', fun other made => ?_, forall_mem_cons.mpr ⟨?_, filled⟩⟩
    · rw [agrees other (Nat.lt_succ_of_lt made), Function.update_of_ne (Nat.ne_of_lt made)]
    · exact (agrees store.size (Nat.lt_succ_self _)).trans (Function.update_self ..)

theorem Store.Solves.mem_generics (solves : store.Solves solution) {placeholder : Nat}
    (mem : placeholder ∈ (solution n).generics) (behind : n ∈ (store.expand type).vars)
    (fill : Nat → Ty) : placeholder ∈ (type.subst solution fill).generics := by
  obtain ⟨start, there, behind⟩ := mem_vars_expand.mp behind
  have start_eq : (store.expand (.var start)).substVars solution = solution start := solves.expand (.var start)
  have inside : placeholder ∈ (solution start).generics := by
    rw [← start_eq, Ty.substVars, Ty.mem_generics_subst]
    exact .inl ⟨n, behind, mem⟩
  rw [Ty.mem_generics_subst]
  exact .inl ⟨start, there, inside⟩

end

theorem Poly.free_of_mem
    (mem : n ∈ (poly.type.substGenerics (poly.pick fun _ => .unit)).generics) :
    poly.Free n := by
  rw [Ty.substGenerics, Ty.mem_generics_subst] at mem
  obtain ⟨_, -, impossible⟩ | ⟨other, there, mem⟩ := mem
  · cases impossible
  · unfold pick at mem
    split at mem
    · cases mem
    · next unquantified =>
      obtain rfl : n = other := by simpa using mem
      exact ⟨there, unquantified⟩

theorem Poly.pick_eq (unquantified : n ∉ poly.quantified) (choice : Nat → Ty) :
    poly.pick choice n = .generic n :=
  if_neg unquantified

def Subsumes (solution : Nat → Ty) (scheme : Ty) (poly : Poly) : Prop :=
  ∀ choice, ∃ fill, scheme.subst solution fill = poly.type.substGenerics (poly.pick choice)

theorem Subsumes.later (subsumes : Subsumes solution scheme poly) (known : store.Scheme level scheme)
    (agrees : ∀ n < store.size, solution' n = solution n) : Subsumes solution' scheme poly := by
  intro choice
  obtain ⟨fill, equal⟩ := subsumes choice
  refine ⟨fill, Eq.trans (Ty.subst_congr (fun n mem => ?_) fun _ _ => rfl) equal⟩
  exact agrees n ((known n mem).covers n (by simp))

theorem Subsumes.of_eq (equal : scheme.substVars solution = type) :
    Subsumes solution scheme ⟨type, []⟩ := by
  intro choice
  have pick_eq : Poly.pick ⟨type, []⟩ choice = .generic := funext fun _ => Poly.pick_eq not_mem_nil choice
  refine ⟨.generic, equal.trans ?_⟩
  rw [pick_eq]
  exact (Ty.subst_self type).symm

def Realizes (solution : Nat → Ty) (aliases declared : List Ty) : Prop :=
  ∀ (index : Nat) (type : Ty), aliases[index]? = some type → declared[index]? = some (type.substVars solution)

theorem Realizes.later (realizes : Realizes solution aliases declared)
    (known : ∀ type ∈ aliases, store.Mono 0 type) (agrees : ∀ n < store.size, solution' n = solution n) :
    Realizes solution' aliases declared := by
  intro index type here
  rw [(known type (mem_of_getElem? here)).covers.substVars_eq agrees]
  exact realizes index type here

theorem Realizes.concat (realizes : Realizes solution aliases declared)
    (here : declared[aliases.length]? = some (type.substVars solution)) :
    Realizes solution (aliases ++ [type]) declared := by
  intro index found there
  rcases Nat.lt_or_ge index aliases.length with before | after
  · rw [getElem?_append_left before] at there
    exact realizes index found there
  · rw [getElem?_append_right after, getElem?_singleton] at there
    split at there
    · next last =>
      cases there
      rw [Nat.le_antisymm (Nat.sub_eq_zero_iff_le.mp last) after]
      exact here
    · cases there

structure Solution (globals : Globals) (state : Inference) (solution : Nat → Ty) : Prop where
  solves : state.store.Solves solution
  externals : ∀ entry ∈ state.externals.entries,
    globals.externals entry.1 = some (entry.2.type.substVars solution)

structure Solved (globals : Globals) (state : Inference) (solution : Nat → Ty) (later : Inference)
    (solution' : Nat → Ty) : Prop where
  steps : state.Steps later
  agrees : ∀ n < state.store.size, solution' n = solution n
  given : Solution globals later solution'

structure Covered (globals : Globals) (state : Inference) (solution : Nat → Ty) (level : Nat)
    (found type : Ty) (later : Inference) (solution' : Nat → Ty) : Prop where
  solved : Solved globals state solution later solution'
  mono : later.store.Mono level found
  equal : found.substVars solution' = type

structure CoveredAll (globals : Globals) (state : Inference) (solution : Nat → Ty) (level : Nat)
    (found types : List Ty) (later : Inference) (solution' : Nat → Ty) : Prop where
  solved : Solved globals state solution later solution'
  mono : ∀ type ∈ found, later.store.Mono level type
  equal : found.map (Ty.substVars solution') = types

section

variable {final : Inference} {solution'' : Nat → Ty} {found : Ty}

theorem Solved.refl (good : state.Good) (given : Solution globals state solution) :
    Solved globals state solution state solution :=
  ⟨⟨.refl state, good⟩, fun _ _ => rfl, given⟩

theorem Solved.trans (first : Solved globals state solution middle solution')
    (second : Solved globals middle solution' final solution'') :
    Solved globals state solution final solution'' where
  steps := first.steps.trans second.steps
  agrees n made := by
    have kept := Nat.lt_of_lt_of_le made first.steps.reached.grows.keeps.size_le
    rw [second.agrees n kept, first.agrees n made]
  given := second.given

theorem Solved.substVars_eq (solved : Solved globals state solution final solution')
    (mono : state.store.Mono level type) : type.substVars solution' = type.substVars solution :=
  mono.covers.substVars_eq solved.agrees

theorem Covered.later (covered : Covered globals state solution level found type middle solution')
    (solved : Solved globals middle solution' final solution'') :
    Covered globals state solution level found type final solution'' :=
  ⟨covered.solved.trans solved, solved.steps.mono covered.mono,
    (solved.substVars_eq covered.mono).trans covered.equal⟩

theorem Covered.after (covered : Covered globals middle solution' level found type final solution'')
    (solved : Solved globals state solution middle solution') :
    Covered globals state solution level found type final solution'' :=
  { covered with solved := solved.trans covered.solved }

theorem CoveredAll.cons (first : Covered globals state solution level found type middle solution')
    (rest : CoveredAll globals middle solution' level founds types final solution'') :
    CoveredAll globals state solution level (found :: founds) (type :: types) final solution'' := by
  have first' := first.later rest.solved
  refine ⟨first'.solved, forall_mem_cons.mpr ⟨first'.mono, rest.mono⟩, ?_⟩
  rw [map_cons, first'.equal, rest.equal]

theorem CoveredAll.later
    (covered : CoveredAll globals state solution level founds types middle solution')
    (solved : Solved globals middle solution' final solution'') :
    CoveredAll globals state solution level founds types final solution'' := by
  refine ⟨covered.solved.trans solved, fun type mem => solved.steps.mono (covered.mono type mem), ?_⟩
  rw [← covered.equal]
  exact map_congr_left fun type mem => solved.substVars_eq (covered.mono type mem)

theorem Solved.prim (solved : Solved globals state solution final solution') (level : Nat)
    (primitive : Primitive) :
    Covered globals state solution level (.prim primitive) (.prim primitive) final solution' :=
  ⟨solved, final.store.mono_prim level primitive, rfl⟩

theorem Covered.app (covered : Covered globals state solution level found type final solution')
    (con : Constructor) :
    Covered globals state solution level (.app con found) (.app con type) final solution' :=
  ⟨covered.solved, Store.mono_app.mpr covered.mono, congrArg (Ty.app con) covered.equal⟩

theorem CoveredAll.tuple
    (covered : CoveredAll globals state solution level founds types final solution') :
    Covered globals state solution level (.tuple founds) (.tuple types) final solution' :=
  ⟨covered.solved, Store.mono_tuple.mpr covered.mono,
    (Ty.subst_tuple ..).trans (congrArg Ty.tuple covered.equal)⟩

theorem CoveredAll.function
    (params : CoveredAll globals state solution level founds types final solution')
    (mono : final.store.Mono level found) (equal : found.substVars solution' = type) :
    Covered globals state solution level (.function founds found) (.function types type) final solution' :=
  ⟨params.solved, Store.mono_function.mpr ⟨params.mono, mono⟩,
    (Ty.subst_function ..).trans (congrArg₂ Ty.function params.equal equal)⟩

end

structure Context.Matches (ctx : Context) (globals : Globals) (solution : Nat → Ty)
    (assumptions : Assumptions) : Prop where
  aliases : Realizes solution ctx.aliases globals.aliases
  locals : List.Forall₂ (fun entry assumed => entry.1 = assumed.1 ∧ Subsumes solution entry.2 assumed.2)
    ctx.locals assumptions

namespace Context.Matches

section

variable (known : ctx.Matches globals solution assumptions)
include known

theorem later (fits : ctx.At state level scope)
    (agrees : ∀ n < state.store.size, solution' n = solution n) :
    ctx.Matches globals solution' assumptions where
  aliases := known.aliases.later fits.aliases agrees
  locals := by
    obtain ⟨-, locals⟩ := known
    have schemes := fits.locals
    generalize ctx.locals = entries at locals schemes
    induction locals with
    | nil => exact .nil
    | cons first _ ih =>
      obtain ⟨first_known, rest_known⟩ := forall_mem_cons.mp schemes
      exact .cons ⟨first.1, first.2.later first_known agrees⟩ (ih rest_known)

theorem bind (symbol : Symbol)
    (subsumes : Subsumes solution scheme poly) :
    (ctx.bind symbol scheme).Matches globals solution ((symbol.number, poly) :: assumptions) :=
  ⟨known.aliases, .cons ⟨rfl, subsumes⟩ known.locals⟩

theorem bindAll {binders : List (Binder Bound Annotation)} {assumed : List (Symbol × Poly)}
    (each : Forall₂ (fun binder pair => binder.name.symbol = pair.1 ∧
      Subsumes solution binder.name.type pair.2) binders assumed) :
    (ctx.bindAll binders).Matches globals solution (assumptions.bindAll assumed) := by
  induction each generalizing ctx assumptions with
  | nil => exact known
  | cons first _ ih =>
    refine ih ⟨known.aliases, .cons ⟨?_, first.2⟩ known.locals⟩
    exact congrArg Symbol.number first.1

theorem lookup (found : assumptions.lookup n = some poly) :
    ∃ scheme, ctx.locals.lookup n = some scheme ∧ Subsumes solution scheme poly := by
  obtain ⟨-, locals⟩ := known
  generalize ctx.locals = entries at locals
  induction locals with
  | nil => cases found
  | @cons entry assumed _ _ first _ ih =>
    obtain ⟨_, scheme⟩ := entry
    obtain ⟨_, _⟩ := assumed
    obtain ⟨rfl, subsumes⟩ := first
    rw [List.lookup_cons] at found ⊢
    split at found
    · next here =>
      cases found
      simp only [here]
      exact ⟨scheme, rfl, subsumes⟩
    · next elsewhere =>
      simp only [elsewhere]
      exact ih found

theorem exists_of_mem {entry : Nat × Ty}
    (mem : entry ∈ ctx.locals) :
    ∃ assumed ∈ assumptions, entry.1 = assumed.1 ∧ Subsumes solution entry.2 assumed.2 := by
  obtain ⟨index, bound, rfl⟩ := getElem_of_mem mem
  have bound' : index < assumptions.length := known.locals.length_eq ▸ bound
  exact ⟨assumptions[index], getElem_mem bound', known.locals.get bound bound'⟩

end

end Context.Matches

structure Agrees (globals : Globals) (assumptions : Assumptions) (solution : Nat → Ty) (ctx : Context)
    (state : Inference) (level : Nat) (scope : List Symbol) : Prop where
  good : state.Good
  fits : ctx.At state level scope
  given : Solution globals state solution
  known : ctx.Matches globals solution assumptions

section

section

variable (agrees : Agrees globals assumptions solution ctx state level scope)
include agrees

theorem Agrees.later {later : Inference}
    (solved : Solved globals state solution later solution') :
    Agrees globals assumptions solution' ctx later level scope :=
  ⟨solved.steps.good, agrees.fits.later solved.steps, solved.given,
    agrees.known.later agrees.fits solved.agrees⟩

theorem Agrees.deeper : Agrees globals assumptions solution ctx state (level + 1) scope :=
  { agrees with fits := agrees.fits.deeper }

theorem Agrees.bind (symbol : Symbol) (scheme_known : state.store.Scheme level scheme)
    (subsumes : Subsumes solution scheme poly) :
    Agrees globals ((symbol.number, poly) :: assumptions) solution (ctx.bind symbol scheme) state level
      (symbol :: scope) :=
  { agrees with
    fits := agrees.fits.bind symbol scheme_known
    known := agrees.known.bind symbol subsumes }

end

theorem Solution.of_links (good : state.Good) (given : Solution globals state solution)
    {empties : List Nat} (links : ∀ n, store.link? n = state.store.link? n)
    (agrees : ∀ n < state.store.size, solution' n = solution n) :
    Solution globals { state with store, empties } solution' := by
  refine ⟨given.solves.of_links links agrees, fun entry mem => ?_⟩
  rw [(good entry mem).covers.substVars_eq agrees]
  exact given.externals entry mem

end

namespace Infer

abbrev Succeeds {α : Type} (computation : InferM α) (state : Inference) (post : α → Inference → Prop) : Prop :=
  Meets (fun _ => False) computation state post

theorem Succeeds.exists_run {α : Type} {computation : InferM α} {post : α → Inference → Prop}
    (succeeds : Succeeds computation state post) :
    ∃ value later, computation.run state = .ok (value, later) := by
  cases run : computation.run state with
  | ok result => exact ⟨result.1, result.2, rfl⟩
  | error _ =>
    unfold Succeeds Meets at succeeds
    rw [run] at succeeds
    exact succeeds.elim

variable {level' : Nat}

/-! ### Fresh variables -/

theorem covered_fresh (good : state.Good) (given : Solution globals state solution) (level : Nat) (type : Ty)
    (empties : List Nat) :
    Covered globals state solution level (.var state.store.size) type
      { state with store := (state.store.fresh level).1, empties }
      (Function.update solution state.store.size type) := by
  have agrees (n : Nat) (made : n < state.store.size) :
      Function.update solution state.store.size type n = solution n :=
    Function.update_of_ne (Nat.ne_of_lt made) ..
  refine ⟨⟨?_, agrees, given.of_links good (state.store.link?_fresh level) agrees⟩,
    state.store.mono_fresh level, Function.update_self ..⟩
  exact good.steps (state.store.grows_fresh level)
    (fun n before => (state.store.isGeneralized_fresh level n).trans before) empties

theorem fresh_solved (good : state.Good) (given : Solution globals state solution) (level : Nat) (type : Ty) :
    Succeeds (fresh level) state fun found later =>
      ∃ solution', Covered globals state solution level found type later solution' :=
  .get (.set (.pure ⟨_, covered_fresh good given level type state.empties⟩))

theorem freshEmpty_solved (good : state.Good) (given : Solution globals state solution) (level : Nat)
    (type : Ty) :
    Succeeds (freshEmpty level) state fun found later =>
      ∃ solution', Covered globals state solution level found type later solution' :=
  .get (.set (.pure ⟨_, covered_fresh good given level type (state.store.size :: state.empties)⟩))

theorem freshAll_solved (good : state.Good) (given : Solution globals state solution) (level : Nat)
    (types : List Ty) :
    Succeeds (freshAll level types.length) state fun found later =>
      ∃ solution', CoveredAll globals state solution level found types later solution' := by
  induction types generalizing state solution with
  | nil => exact .pure ⟨solution, .refl good given, forall_mem_nil _, rfl⟩
  | cons type _ ih =>
    refine .bind (fresh_solved good given level type) fun _ _ ⟨_, first⟩ => ?_
    refine .bind (ih first.solved.steps.good first.solved.given) fun _ _ ⟨_, rest⟩ => ?_
    exact .pure ⟨_, .cons first rest⟩

/-! ### Unification -/

theorem unify_solved (good : state.Good) (given : Solution globals state solution)
    (left_mono : state.store.Mono level left) (right_mono : state.store.Mono level' right)
    (equal : left.substVars solution = right.substVars solution) (span : Span) :
    Succeeds (unify left right span) state fun _ later => Solved globals state solution later solution := by
  have survives : Store.Survives solution (state.store.unify left right) :=
    Store.survives_unifyWithin _ state.store left right left_mono.admits right_mono.admits given.solves equal
  have unified : (state.store.unify left right).2 = none := by
    cases outcome : (state.store.unify left right).2 with
    | none => rfl
    | some _ =>
      exact absurd (survives.ends outcome) (Store.unify_ends left_mono.admits right_mono.admits outcome)
  have succeeds : Succeeds (unify left right span) state fun _ later =>
      later = { state with store := (state.store.unify left right).1 } := by
    refine .get ?_
    split
    · next store outcome =>
      rw [outcome]
      exact rfl
    · next store clash outcome =>
      rw [outcome] at unified
      cases unified
  refine succeeds.with_run fun _ later run same => ?_
  have spec := (unify_spec good left_mono right_mono span).of_run run
  subst same
  exact ⟨spec.1, fun _ _ => rfl, survives.solves, given.externals⟩

theorem unify_covered {start : Inference} {before : Nat → Ty}
    (left_covered : Covered globals state solution level left type middle solution')
    (right_covered : Covered globals start before level' right type middle solution') (span : Span) :
    Succeeds (unify left right span) middle fun _ later => Solved globals middle solution' later solution' :=
  unify_solved left_covered.solved.steps.good left_covered.solved.given left_covered.mono right_covered.mono
    (left_covered.equal.trans right_covered.equal.symm) span

/-! ### Annotations -/

section

mutual
theorem annotated_solved (hint : Annotation) {state : Inference} {solution : Nat → Ty} {type : Ty}
    (good : state.Good) (given : Solution globals state solution)
    (known : ∀ type ∈ aliases, state.store.Mono 0 type) (realizes : Realizes solution aliases declared)
    (within : hint.Within aliases.length) (described : Describes declared hint type) :
    Succeeds (annotated aliases level hint) state fun found later =>
      ∃ solution', Covered globals state solution level found type later solution' := by
  match hint with
  | .hole _ => exact fresh_solved good given level type
  | .prim _ primitive =>
    obtain rfl : type = .prim primitive := described
    exact .pure ⟨solution, (Solved.refl good given).prim level primitive⟩
  | .synonym _ index =>
    have exists_ : index < aliases.length := within index (by simp [ Annotation.typeNames])
    have found : aliases[index]? = some aliases[index] := getElem?_eq_getElem exists_
    have mono := known _ (getElem_mem exists_)
    have same : some (aliases[index].substVars solution) = some type :=
      (realizes index _ found).symm.trans described
    rw [annotated, found]
    exact .pure ⟨solution, .refl good given, mono.mono (Nat.zero_le level), Option.some.inj same⟩
  | .app _ con inner =>
    obtain ⟨_, rfl, described⟩ := described
    rw [annotated]
    refine .map (annotated_solved inner good given known realizes (fun index mem => within index ?_) described)
      fun _ _ ⟨_, covered⟩ => ⟨_, covered.app con⟩
    simpa [ Annotation.typeNames] using mem
  | .tuple _ inner =>
    obtain ⟨_, rfl, described⟩ := described
    rw [annotated]
    refine .map (annotatedAll_solved inner good given known realizes
      (fun hint mem index there => within index ?_) described)
      fun _ _ ⟨_, covered⟩ => ⟨_, covered.tuple⟩
    rw [ Annotation.typeNames, Annotation.typeNamesOf_eq]
    exact mem_flatMap.mpr ⟨hint, mem, there⟩
  | .function _ inner last =>
    obtain ⟨_, _, rfl, described, last_described⟩ := described
    rw [annotated]
    refine .bind (annotatedAll_solved inner good given known realizes
      (fun hint mem index there => within index ?_) described) fun _ _ ⟨_, covered⟩ => ?_
    · rw [ Annotation.typeNames, Annotation.typeNamesOf_eq]
      exact mem_append_left _ (mem_flatMap.mpr ⟨hint, mem, there⟩)
    have solved := covered.solved
    refine .bind (annotated_solved last solved.steps.good solved.given
      (fun type mem => solved.steps.mono (known type mem)) (realizes.later known solved.agrees)
      (fun index there => within index ?_) last_described) fun _ _ ⟨_, last_covered⟩ =>
        .pure ⟨_, (covered.later last_covered.solved).function last_covered.mono last_covered.equal⟩
    rw [ Annotation.typeNames]
    exact mem_append_right _ there
theorem annotatedAll_solved (hints : List Annotation) {state : Inference} {solution : Nat → Ty}
    {types : List Ty} (good : state.Good) (given : Solution globals state solution)
    (known : ∀ type ∈ aliases, state.store.Mono 0 type) (realizes : Realizes solution aliases declared)
    (within : ∀ hint ∈ hints, hint.Within aliases.length) (described : DescribesAll declared hints types) :
    Succeeds (annotatedAll aliases level hints) state fun found later =>
      ∃ solution', CoveredAll globals state solution level found types later solution' := by
  match hints, types with
  | [], [] => exact .pure ⟨solution, .refl good given, forall_mem_nil _, rfl⟩
  | [], _ :: _ => exact described.elim
  | _ :: _, [] => exact described.elim
  | hint :: hints, type :: types =>
    obtain ⟨first_described, rest_described⟩ := described
    rw [annotatedAll]
    refine .bind (annotated_solved hint good given known realizes (within hint (.head _))
      first_described) fun _ _ ⟨_, first⟩ => ?_
    have solved := first.solved
    refine .map (annotatedAll_solved hints solved.steps.good solved.given
      (fun type mem => solved.steps.mono (known type mem)) (realizes.later known solved.agrees)
      (fun hint mem => within hint (.tail _ mem)) rest_described)
      fun _ _ ⟨_, rest⟩ => ⟨_, .cons first rest⟩
end

end

theorem checkHint_solved (agrees : Agrees globals assumptions solution ctx state level scope)
    {hint : Option Annotation} (within : ∀ here ∈ hint.toList, here.Within ctx.aliases.length)
    (mono : state.store.Mono level type) (described : globals.Describes hint (type.substVars solution))
    (span : Span) :
    Succeeds (checkHint ctx level hint type span) state fun _ later =>
      ∃ solution', Solved globals state solution later solution' := by
  cases hint with
  | none => exact .pure ⟨solution, .refl agrees.good agrees.given⟩
  | some hint =>
    refine .bind (annotated_solved hint agrees.good agrees.given agrees.fits.aliases agrees.known.aliases
      (within hint (by simp)) (described hint rfl)) fun found _ ⟨solution', covered⟩ => ?_
    have solved := covered.solved
    have equal : found.substVars solution' = type.substVars solution' :=
      covered.equal.trans (solved.substVars_eq mono).symm
    refine (unify_solved solved.steps.good solved.given covered.mono (solved.steps.mono mono) equal span).weaken
      fun _ later unified => ?_
    exact ⟨solution', solved.trans unified⟩

/-! ### Variables -/

theorem externalType_solved (good : state.Good) (given : Solution globals state solution)
    (declared : globals.externals name = some type) :
    Succeeds (externalType name) state fun found later =>
      ∃ solution', Covered globals state solution 0 found type later solution' := by
  have succeeds : Succeeds (externalType name) state fun found later =>
      ∃ solution', (∀ n < state.store.size, solution' n = solution n) ∧
        Solution globals later solution' ∧ found.substVars solution' = type := by
    refine .get ?_
    split
    · next external found =>
      have here := given.externals _ (NameMap.mem_of_find? found)
      exact .pure ⟨solution, fun _ _ => rfl, given, Option.some.inj (here.symm.trans declared)⟩
    · have fresh := covered_fresh good given 0 type state.empties
      refine ⟨_, fresh.solved.agrees, ⟨fresh.solved.given.solves, fun entry mem => ?_⟩, fresh.equal⟩
      rcases mem_cons.mp mem with rfl | mem
      · exact declared.trans (congrArg some fresh.equal.symm)
      · exact fresh.solved.given.externals entry (mem_filter.mp mem).1
  refine succeeds.with_run fun found later run ⟨solution', agrees, given', equal⟩ => ?_
  obtain ⟨steps, mono, -⟩ := (externalType_spec good {} name).of_run run
  exact ⟨solution', ⟨steps, agrees, given'⟩, mono, equal⟩

def Declared (globals : Globals) (state : Inference) (solution : Nat → Ty) (level : Nat) (type scheme : Ty)
    (later : Inference) : Prop :=
  ∃ solution', Solved globals state solution later solution' ∧ later.store.Scheme level scheme ∧
    ∃ fill, scheme.subst solution' fill = type

theorem targetType_external (good : state.Good) (given : Solution globals state solution)
    (declared : globals.externals name = some type) :
    Succeeds (targetType ctx (.external name)) state (Declared globals state solution level type) :=
  (externalType_solved good given declared).weaken fun _ _ ⟨solution', covered⟩ =>
    ⟨solution', covered.solved, (covered.mono.mono (Nat.zero_le level)).scheme, .generic, covered.equal⟩

theorem targetType_bound (agrees : Agrees globals assumptions solution ctx state level scope)
    {symbol : Symbol} (declared : assumptions.lookup symbol.number = some poly)
    (taken : poly.Instance type) :
    Succeeds (targetType ctx (.bound symbol)) state (Declared globals state solution level type) := by
  obtain ⟨choice, rfl⟩ := taken
  obtain ⟨_, found, subsumes⟩ := agrees.known.lookup declared
  obtain ⟨fill, equal⟩ := subsumes choice
  rw [targetType, found]
  exact .pure ⟨solution, .refl agrees.good agrees.given, agrees.fits.locals _ (mem_of_lookup found), fill, equal⟩

theorem instantiate_solved (good : state.Good) (given : Solution globals state solution) (name : String)
    (known : state.store.Scheme level scheme) {fill : Nat → Ty}
    (equal : scheme.subst solution fill = type) :
    Succeeds (instantiate level name scheme) state fun made later =>
      ∃ solution', Covered globals state solution level made.type type later solution' := by
  have made := state.store.instance_instantiate level scheme
  obtain ⟨solution', agrees, filled⟩ :=
    state.store.exists_freshFor level scheme.generics.eraseDups solution fill
  refine .get (.set (.pure ⟨solution', ⟨?_, agrees, given.of_links good made.made.link? agrees⟩,
    made.mono known, ?_⟩))
  · exact good.steps made.made.grows (fun n before => (made.made.isGeneralized n).trans before) _
  · have type_eq : (state.store.instantiate level scheme).2.1.substVars solution' =
        scheme.subst solution' fun n =>
          (((state.store.instantiate level scheme).2.2.lookup n).getD (.generic n)).substVars
            solution' := by
      rw [made.type_eq, Ty.substGenerics, Ty.substVars, Ty.subst_subst]
      rfl
    refine type_eq.trans (Eq.trans (Ty.subst_congr (fun n mem => ?_) fun n mem => ?_) equal)
    · exact agrees n ((known n mem).covers n (by simp))
    · obtain ⟨_, found, -⟩ := made.lookup mem
      rw [found]
      exact filled _ (mem_of_lookup found)

theorem use_solved {ref : Reference}
    (target : Succeeds (targetType ctx ref.target) state (Declared globals state solution level type)) :
    Succeeds (use ctx level ref) state fun used later =>
      ∃ solution', Covered globals state solution level used.1 type later solution' := by
  unfold use
  refine .bind target fun declared middle ⟨solution', solved, scheme, fill, equal⟩ => .get ?_
  dsimp only
  split
  · next poly =>
    rw [resolve_of_isPolymorphic scheme poly]
    refine .map (instantiate_solved solved.steps.good solved.given _ scheme equal)
      fun _ _ ⟨_, covered⟩ => ⟨_, covered.after solved⟩
  · next plain =>
    have no_generics := generics_eq_nil plain
    have mono : middle.store.Mono level declared := Store.mono_iff.mpr ⟨scheme, no_generics⟩
    refine .pure ⟨solution', solved, mono.resolve, ?_⟩
    calc (middle.store.resolve declared).substVars solution'
        = (middle.store.expand (middle.store.resolve declared)).substVars solution' :=
          (solved.given.solves.expand _).symm
      _ = declared.substVars solution' := by rw [Store.expand_resolve, solved.given.solves.expand]
      _ = declared.subst solution' fill :=
          Ty.subst_congr (fun _ _ => rfl) fun _ mem => by rw [no_generics] at mem; cases mem
      _ = type := equal

/-! ### Parameters -/

theorem parameters_solved (agrees : Agrees globals assumptions solution ctx state level scope)
    (within : ∀ hint ∈ params.flatMap (fun param => param.hint.toList),
      hint.Within ctx.aliases.length) (lengths : types.length = params.length)
    (described : ∀ pair ∈ params.zip types, globals.Describes pair.1.hint pair.2) :
    Succeeds (parameters ctx level params) state fun params' later =>
      ∃ solution', CoveredAll globals state solution level (params'.map fun param => param.name.type) types
        later solution' := by
  induction params generalizing state solution types with
  | nil =>
    obtain rfl := length_eq_zero_iff.mp lengths
    exact .pure ⟨solution, .refl agrees.good agrees.given, forall_mem_nil _, rfl⟩
  | cons _ _ ih =>
    obtain ⟨type, types, rfl⟩ := exists_cons_of_length_eq_add_one lengths
    rw [flatMap_cons] at within
    rw [zip_cons_cons, forall_mem_cons] at described
    rw [parameters]
    refine .bind (fresh_solved agrees.good agrees.given level type) ?_
    rintro _ _ ⟨_, fresh⟩
    have agrees' := agrees.later fresh.solved
    refine .bind (checkHint_solved agrees' (fun hint mem => within hint (mem_append_left _ mem))
      fresh.mono (fresh.equal.symm ▸ described.1) _) ?_
    rintro _ _ ⟨_, hinted⟩
    refine .map (ih (agrees'.later hinted) (fun hint mem => within hint (mem_append_right _ mem))
      (Nat.succ.inj lengths) described.2) fun _ _ rest => rest.imp fun _ => .cons (fresh.later hinted)

theorem signature_solved (agrees : Agrees globals assumptions solution ctx state level scope)
    {result : Option Annotation} {returned : Ty}
    (within : ∀ hint ∈ params.flatMap (fun param => param.hint.toList) ++ result.toList,
      hint.Within ctx.aliases.length) (lengths : types.length = params.length)
    (params_described : ∀ pair ∈ params.zip types, globals.Describes pair.1.hint pair.2)
    (result_described : globals.Describes result returned) :
    Succeeds (signature ctx level params result) state fun (params', returned') later =>
      ∃ solution',
        CoveredAll globals state solution level (params'.map fun param => param.name.type) types later solution' ∧
          returned'.substVars solution' = returned := by
  refine .bind (parameters_solved agrees (fun hint mem => within hint (mem_append_left _ mem))
    lengths params_described) fun params' _ ⟨_, params_covered⟩ => ?_
  have agrees' := agrees.later params_covered.solved
  refine .bind (fresh_solved agrees'.good agrees'.given level returned) fun _ _ ⟨_, fresh⟩ => ?_
  refine .map (checkHint_solved (agrees'.later fresh.solved)
    (fun hint mem => within hint (mem_append_right _ mem)) fresh.mono
    (fresh.equal.symm ▸ result_described) _) fun _ _ ⟨solution', hinted⟩ => ⟨solution', ?_⟩
  have returned_covered := fresh.later hinted
  exact ⟨params_covered.later returned_covered.solved, returned_covered.equal⟩

end Infer

end MiddleEnd
