import Mathlib.Tactic.Choose
import MiddleEnd.Proofs.Source.Sound
import MiddleEnd.Proofs.Typing.Close

/-! Programs that inference accepts follow the typing rules, for every choice of types that solves what
inference has found out. -/

namespace MiddleEnd

open List

variable {provides : String → Ty → Prop} {general : Nat → Prop} {type scheme : Ty} {solution : Nat → Ty}
  {ctx : Context} {scope : Scope} {binders : List (Binder Bound Annotation)}
  {state middle : Inference} {expr : TypedExpr} {start : Inference} {types : List Ty}

namespace Ty

theorem subst_of_plain (plain : type.generics = []) (var generic : Nat → Ty) :
    type.subst var generic = type.substVars var :=
  subst_congr (fun _ _ => rfl) fun _ mem => by
    rw [plain] at mem
    cases mem

end Ty

def Relates (general : Nat → Prop) (solution : Nat → Ty) (ctx : Context) (scope : Scope) : Prop :=
  ∀ n scheme, ctx.locals.lookup n = some scheme → ∃ entry,
    scope.lookup n = some entry ∧
      (general n ∨ scheme.generics = [] → ∀ choice, entry choice = scheme.subst solution choice)

def Provided (provides : String → Ty → Prop) (solution : Nat → Ty) (state : Inference) : Prop :=
  ∀ name external, state.externals.find? name = some external →
    external.type.generics = [] ∧ provides name (external.type.substVars solution)

def Marked (general : Nat → Prop) (expr : TypedExpr) : Prop :=
  ∀ use ∈ expr.refs, ∀ symbol, use.target = .bound symbol → use.instantiation.isSome →
    general symbol.number

theorem Marked.part {part : TypedExpr} {names : List Bound} (marked : Marked general expr)
    (inside : (names, part) ∈ expr.parts) : Marked general part := by
  intro use mem
  apply marked use
  rw [Expr.refs_eq]
  exact mem_append_right _ (mem_flatMap.mpr ⟨(names, part), inside, mem⟩)

theorem Relates.bind {symbol : Symbol} {entry : Scheme}
    (relates : Relates general solution ctx scope)
    (same : general symbol.number ∨ scheme.generics = [] →
      ∀ choice, entry choice = scheme.subst solution choice) :
    Relates general solution (ctx.bind symbol scheme) ((symbol.number, entry) :: scope) := by
  intro n scheme' found
  simp only [Context.bind, List.lookup_cons] at found ⊢
  cases here : n == symbol.number with
  | true =>
    rw [here] at found
    cases found
    rw [beq_iff_eq.mp here]
    exact ⟨entry, rfl, same⟩
  | false =>
    rw [here] at found
    exact relates n scheme' found

theorem Relates.bindAll {entries : List Scheme} (relates : Relates general solution ctx scope)
    (arity : entries.length = binders.length)
    (same : ∀ pair ∈ binders.zip entries, general pair.1.name.symbol.number ∨
      pair.1.name.type.generics = [] →
        ∀ choice, pair.2 choice = pair.1.name.type.subst solution choice) :
    Relates general solution (ctx.bindAll binders)
      (scope.bindAll (binders.map fun binder => binder.name.symbol) entries) := by
  induction binders generalizing ctx scope entries with
  | nil =>
    rw [length_eq_zero_iff.mp arity]
    exact relates
  | cons _ _ ih =>
    cases entries with
    | nil => cases arity
    | cons _ _ =>
      rw [zip_cons_cons] at same
      exact ih (relates.bind (same _ (.head _))) (by simpa using arity)
        fun pair mem => same pair (.tail _ mem)

theorem Provided.earlier {later : Inference} (provided : Provided provides solution later)
    (steps : state.Extends later) :
    Provided provides solution state :=
  fun name external found => provided name external (steps.external found)

theorem Inference.Same.subst {left right : Ty} (same : state.Same left right)
    (solves : state.store.Solves solution) :
    left.substVars solution = right.substVars solution := by
  rw [← solves.expand left, same, solves.expand]

theorem Generalized.exists_solution (generalized : Generalized middle state ctx type scheme)
    (solves : state.store.Solves solution) (relates : Relates general solution ctx scope)
    (provided : Provided provides solution state) (choice : Nat → Ty) :
    ∃ other, middle.store.Solves other ∧ Relates general other ctx scope ∧
      Provided provides other middle ∧ type.substVars other = scheme.subst solution choice := by
  have before : middle.store.Solves solution := generalized.steps.grows.keeps.solves solves
  let chosen (n : Nat) : Ty :=
    if n ∈ scheme.generics then choice n else solution n
  have agree {there : Ty} (outside : ∀ n ∈ scheme.generics,
      n ∉ (middle.store.expand there).vars) :
      ∀ n ∈ there.vars, middle.store.solution chosen n = solution n := by
    intro n mem
    rw [← before.eq_solution]
    apply Ty.subst_congr _ fun _ _ => rfl
    intro found behind
    have absent : found ∉ scheme.generics := fun quantified =>
      outside found quantified (Store.mem_vars_expand.mpr ⟨n, mem, behind⟩)
    exact if_neg absent
  refine ⟨middle.store.solution chosen, middle.store.solves_solution chosen, ?_, ?_, ?_⟩
  · intro n local_scheme found
    obtain ⟨entry, here, same⟩ := relates n local_scheme found
    refine ⟨entry, here, fun usable choice => ?_⟩
    rw [same usable choice]
    exact (Ty.subst_congr (agree fun quantified mem =>
      generalized.locals quantified mem _ (mem_of_lookup found)) fun _ _ => rfl).symm
  · intro name external found
    obtain ⟨plain, here⟩ := provided name external (generalized.steps.external found)
    refine ⟨plain, ?_⟩
    have same : external.type.substVars (middle.store.solution chosen) =
        external.type.substVars solution :=
      Ty.subst_congr (agree fun quantified mem =>
        generalized.externals quantified mem name external found) fun _ _ => rfl
    rwa [same]
  · rw [Store.substVars_solution, ← generalized.thaw, Ty.thaw, Ty.substVars, Ty.substGenerics,
      Ty.subst_subst]
    apply Ty.subst_congr
    · intro n mem
      have absent : n ∉ scheme.generics := fun quantified =>
        generalized.vars n quantified mem
      exact if_neg absent
    · intro n mem
      exact if_pos mem

theorem Generalized.subst_eq (generalized : Generalized middle state ctx type scheme)
    (solves : state.store.Solves solution) (plain : scheme.generics = []) (choice : Nat → Ty) :
    scheme.subst solution choice = type.substVars solution := by
  have before : middle.store.Solves solution := generalized.steps.grows.keeps.solves solves
  rw [← before.expand type, ← generalized.thaw, Ty.thaw, Ty.substGenerics, Ty.substVars, Ty.subst_subst]
  apply Ty.subst_congr (fun _ _ => rfl)
  intro _ mem
  rw [plain] at mem
  cases mem

theorem Uses.hasType {note : Note} {use : Use} (uses : Uses state ctx use note.type)
    (solves : state.store.Solves solution) (relates : Relates general solution ctx scope)
    (provided : Provided provides solution state)
    (marked : ∀ symbol, use.target = .bound symbol → use.instantiation.isSome → general symbol.number) :
    HasType provides general scope (.var note.span ⟨use.target, use.order⟩)
      (note.type.substVars solution) := by
  obtain ⟨target, order, instantiation⟩ := use
  cases uses with
  | mono declares plain _ same =>
    rw [same.subst solves]
    cases target with
    | bound symbol =>
      obtain ⟨entry, found, typed⟩ := relates symbol.number _ declares
      rw [← Ty.subst_of_plain plain solution .generic, ← typed (.inr plain) .generic]
      exact .bound found .generic
    | external name =>
      obtain ⟨external, found, rfl⟩ := declares
      exact .external (provided name external found).2
  | @poly made declares taken type_eq fits =>
    cases target with
    | bound symbol =>
      obtain ⟨entry, found, typed⟩ := relates symbol.number _ declares
      have reused : general symbol.number := marked symbol rfl (by simp only at taken; rw [taken]; rfl)
      rw [← type_eq, fits.type_eq, Ty.substGenerics, Ty.substVars, Ty.subst_subst]
      have chosen := typed (.inl reused)
        fun n => ((made.mapping.lookup n).getD (.generic n)).substVars solution
      exact chosen ▸ .bound found _
    | external name =>
      obtain ⟨external, found, same⟩ := declares
      obtain ⟨plain, here⟩ := provided name external found
      have type_same : note.type = external.type := by
        rw [← type_eq, fits.type_eq, ← same, Ty.substGenerics, Ty.subst_of_plain plain, Ty.substVars,
          Ty.subst_self]
      rw [type_same]
      exact .external here

theorem zip_types {terms : List TypedExpr} {pair : Term × Ty}
    (mem : pair ∈ (terms.map Expr.erase).zip ((terms.map Expr.type).map (Ty.substVars solution))) :
    ∃ term ∈ terms, pair = (term.erase, term.type.substVars solution) := by
  rw [List.map_map, zip_map', mem_map] at mem
  obtain ⟨term, there, rfl⟩ := mem
  exact ⟨term, there, rfl⟩

theorem zip_map_self {α β : Type} (image : α → β) (list : List α) :
    list.zip (list.map image) = list.map fun value => (value, image value) := by
  have zipped : (list.map id).zip (list.map image) = list.map fun value => (id value, image value) :=
    zip_map'
  simpa using zipped

theorem Relates.function {name : Symbol} {params : List (Binder Bound Annotation)} {returned : Ty}
    (relates : Relates general solution ctx scope)
    (plain : (Bound.function params returned).generics = []) :
    Relates general solution ((ctx.bindAll params).bind name (Bound.function params returned))
      (scope.function name (params.map fun param => param.name.symbol)
        (params.map fun param => param.name.type.substVars solution) (returned.substVars solution)) := by
  apply Relates.bind
  · apply relates.bindAll
    · simp
    · intro pair mem _ choice
      rw [List.map_map, zip_map_self] at mem
      obtain ⟨param, there, rfl⟩ := mem_map.mp mem
      rw [Bound.function, Ty.generics_function, append_eq_nil_iff, flatMap_eq_nil_iff] at plain
      have param_plain := plain.1 param.name.type (mem_map_of_mem there)
      exact (Ty.subst_of_plain param_plain solution choice).symm
  · intro _ choice
    rw [Ty.subst_of_plain plain]
    simp [Bound.function, Scheme.plain, Ty.substVars, Function.comp_def]

theorem exists_entry {n : Nat} (Typed : Ty → Prop)
    (generalized : Generalized middle state ctx type scheme) (solves : state.store.Solves solution)
    (relates : Relates general solution ctx scope) (provided : Provided provides solution state)
    (typed : ∀ {other}, middle.store.Solves other → Relates general other ctx scope →
      Provided provides other middle → Typed (type.substVars other)) :
    ∃ entry : Scheme, (general n ∨ scheme.generics = [] →
        ∀ choice, entry choice = scheme.subst solution choice) ∧
      (general n ∨ ∀ choice, entry choice = type.substVars solution) ∧
      ∀ choice, Typed (entry choice) := by
  by_cases reused : general n
  · refine ⟨fun choice => scheme.subst solution choice, fun _ _ => rfl, .inl reused, fun choice => ?_⟩
    obtain ⟨other, other_solves, related, other_provided, same⟩ :=
      generalized.exists_solution solves relates provided choice
    show Typed (scheme.subst solution choice)
    rw [← same]
    exact typed other_solves related other_provided
  · have before := generalized.steps.grows.keeps.solves solves
    refine ⟨.plain (type.substVars solution), ?_, .inr fun _ => rfl, fun _ => ?_⟩
    · intro usable choice
      exact (generalized.subst_eq solves (usable.resolve_left reused) choice).symm
    · exact typed before relates (provided.earlier generalized.steps)

theorem Parted.generalized (parted : Parted start state ctx binders types) {index : Nat}
    {binder : Binder Bound Annotation} (binder_here : binders[index]? = some binder)
    (type_here : types[index]? = some type) :
    ∃ middle, start.Extends middle ∧ Generalized middle state ctx type binder.name.type := by
  induction parted generalizing index with
  | nil => cases binder_here
  | cons reached _ generalized _ ih =>
    cases index with
    | zero =>
      cases binder_here
      cases type_here
      exact ⟨_, reached, generalized⟩
    | succ _ => exact ih binder_here type_here

section

variable (Typed : List Ty → Prop) (parted : Parted start state ctx binders types)
  (steps : start.Extends state) (solves : state.store.Solves solution)
  (relates : Relates general solution ctx scope) (provided : Provided provides solution state)
  (typed : ∀ {other}, start.store.Solves other → Relates general other ctx scope →
    Provided provides other start → Typed (types.map (Ty.substVars other)))
include parted steps solves relates provided typed

theorem Parted.exists_entry (index : Nat) :
    ∃ entry : Scheme,
      (∀ binder, binders[index]? = some binder →
        (general binder.name.symbol.number ∨ binder.name.type.generics = [] →
          ∀ choice, entry choice = binder.name.type.subst solution choice) ∧
        (general binder.name.symbol.number ∨
          ∀ choice, (types.map (Ty.substVars solution))[index]? = some (entry choice))) ∧
      ∀ choice, ∃ elements, Typed elements ∧
        (index < binders.length → elements[index]? = some (entry choice)) := by
  by_cases inside : index < binders.length
  · have binder_here := getElem?_eq_getElem inside
    obtain ⟨type, type_here⟩ := Eval.exists_getElem?_of_length parted.length_eq binder_here
    obtain ⟨_, reached, generalized⟩ := parted.generalized binder_here type_here
    obtain ⟨entry, same, uses, each⟩ := MiddleEnd.exists_entry
      (fun part => ∃ elements, Typed elements ∧ elements[index]? = some part) generalized solves relates
      provided fun {other} other_solves related other_provided =>
        ⟨types.map (Ty.substVars other), typed (reached.grows.keeps.solves other_solves) related
          (other_provided.earlier reached), by rw [getElem?_map, type_here]; rfl⟩
    refine ⟨entry, fun binder found => ?_, fun choice => ?_⟩
    · cases binder_here.symm.trans found
      refine ⟨same, uses.imp_right fun constant choice => ?_⟩
      rw [getElem?_map, type_here, constant]
      rfl
    · obtain ⟨elements, elements_typed, here⟩ := each choice
      exact ⟨elements, elements_typed, fun _ => here⟩
  · refine ⟨.plain .unit, fun binder found => ?_, fun choice => ?_⟩
    · exact absurd (List.getElem?_eq_some_iff.mp found).1 inside
    · exact ⟨_, typed (steps.grows.keeps.solves solves) relates (provided.earlier steps),
        fun within => absurd within inside⟩

theorem Parted.exists_entries :
    ∃ (entries : List Scheme) (tuples : Nat → (Nat → Ty) → List Ty), entries.length = binders.length ∧
      (∀ index choice, Typed (tuples index choice)) ∧
      (∀ (index : Nat) entry choice, entries[index]? = some entry →
        (tuples index choice)[index]? = some (entry choice)) ∧
      (∀ (index : Nat) binder entry, binders[index]? = some binder → entries[index]? = some entry →
        general binder.name.symbol.number ∨
          ∀ choice, (types.map (Ty.substVars solution))[index]? = some (entry choice)) ∧
      Relates general solution (ctx.bindAll binders)
        (scope.bindAll (binders.map fun binder => binder.name.symbol) entries) := by
  choose entryAt facts tuples tuples_typed parts using
    Parted.exists_entry Typed parted steps solves relates provided typed
  let entries := (range binders.length).map entryAt
  have entry_here {index : Nat} {entry : Scheme} (found : entries[index]? = some entry) :
      index < binders.length ∧ entry = entryAt index := by
    obtain ⟨inside, rfl⟩ := List.getElem?_eq_some_iff.mp found
    exact ⟨by simpa [entries] using inside, by simp [entries]⟩
  refine ⟨entries, tuples, by simp [entries], tuples_typed, ?_, ?_, relates.bindAll (by simp [entries]) ?_⟩
  · intro index entry choice found
    obtain ⟨inside, rfl⟩ := entry_here found
    exact parts index choice inside
  · intro index binder entry here found
    rw [(entry_here found).2]
    exact (facts index binder here).2
  · rintro ⟨binder, entry⟩ mem
    obtain ⟨index, here⟩ := mem_iff_getElem?.mp mem
    rw [getElem?_zip_eq_some] at here
    rw [(entry_here here.2).2]
    exact (facts index binder here.1).1

end

theorem Derives.hasType (derives : Derives state ctx expr) (solves : state.store.Solves solution)
    (relates : Relates general solution ctx scope) (provided : Provided provides solution state)
    (marked : Marked general expr) :
    HasType provides general scope expr.erase (expr.type.substVars solution) := by
  induction derives generalizing solution scope with
  | @lit _ _ span value =>
    have plain : value.ty.substVars solution = value.ty := by cases value <;> rfl
    simp only [Expr.erase, Expr.map, Expr.type, Expr.note, plain]
    exact .lit
  | @var _ _ note use uses =>
    have here : use ∈ (Expr.var note use : TypedExpr).refs := by
      rw [Expr.refs_eq]
      exact .head _
    exact uses.hasType solves relates provided (marked use here)
  | @unary _ _ span op operand _ same ih =>
    have typed := ih solves relates provided (marked.part (.head _))
    have plain : op.operand.substVars solution = op.operand := by cases op <;> rfl
    rw [← same.subst solves, plain] at typed
    simp only [Expr.erase, Expr.map, Expr.type, Expr.note, plain]
    exact .unary typed
  | @binary _ _ span op type lhs rhs known _ _ lhs_same rhs_same lhs_ih rhs_ih =>
    obtain ⟨_, rfl⟩ := BinaryOp.operand_prim known
    have lhs_typed := lhs_ih solves relates provided (marked.part (.head _))
    have rhs_typed := rhs_ih solves relates provided (marked.part (.tail _ (.head _)))
    rw [← lhs_same.subst solves] at lhs_typed
    rw [← rhs_same.subst solves] at rhs_typed
    exact .binary known lhs_typed rhs_typed
  | compare unknown _ _ same lhs_ih rhs_ih =>
    have lhs_typed := lhs_ih solves relates provided (marked.part (.head _))
    have rhs_typed := rhs_ih solves relates provided (marked.part (.tail _ (.head _)))
    rw [← same.subst solves] at rhs_typed
    exact .compare unknown lhs_typed rhs_typed
  | cond _ _ _ test_same same test_ih yes_ih no_ih =>
    have test_typed := test_ih solves relates provided (marked.part (.head _))
    have yes_typed := yes_ih solves relates provided (marked.part (.tail _ (.head _)))
    have no_typed := no_ih solves relates provided (marked.part (.tail _ (.tail _ (.head _))))
    rw [← test_same.subst solves] at test_typed
    rw [← same.subst solves] at no_typed
    exact .cond test_typed yes_typed no_typed
  | @letIn middle _ _ span binder bound body _ hinted generalized _ bound_ih body_ih =>
    obtain ⟨entry, same, uses, bound_typed⟩ := exists_entry
      (HasType provides general scope bound.erase) generalized solves relates provided
      (fun other_solves related other_provided =>
        bound_ih other_solves related other_provided (marked.part (.head _)))
    have body_typed := body_ih solves (relates.bind same) provided (marked.part (.tail _ (.head _)))
    refine .letIn bound_typed (uses.imp_right fun same choice _ => ?_) body_typed
    rw [same, same]
  | @letRec middle _ ctx span name params result body rest returned plain _ _ _ same generalized _
      body_ih rest_ih =>
    choose other other_solves related other_provided same_type using fun choice =>
      generalized.exists_solution solves relates provided choice
    have function_type (choice : Nat → Ty) :
        .function (params.map fun param => param.name.type.substVars (other choice))
          (returned.substVars (other choice)) = name.type.subst solution choice := by
      rw [← same_type choice]
      simp [Bound.function, Ty.substVars, Function.comp_def]
    have symbols : (params.map fun param => (⟨param.name.symbol, param.hint.map id⟩ :
        Binder Symbol Annotation)).map Binder.name = params.map fun param => param.name.symbol := by
      simp [Function.comp_def]
    have body_typed (choice : Nat → Ty) := body_ih (other_solves choice) ((related choice).function plain)
      (other_provided choice) (marked.part (.head _))
    have rest_typed := rest_ih solves (relates.bind fun _ choice => function_type choice) provided
      (marked.part (.tail _ (.head _)))
    apply HasType.letRec (fun choice => by simp) (fun choice => ?_) rest_typed
    rw [symbols, same.subst (other_solves choice)]
    have typed := body_typed choice
    rwa [same.subst (other_solves choice)] at typed
  | @letTuple middle _ ctx span binders types bound body _ same steps parted _ bound_ih body_ih =>
    have arity : types.length = binders.length := parted.length_eq
    have bound_typed {other : Nat → Ty} (other_solves : middle.store.Solves other)
        (related : Relates general other ctx scope) (other_provided : Provided provides other middle) :
        HasType provides general scope bound.erase (.tuple (types.map (Ty.substVars other))) := by
      have typed := bound_ih other_solves related other_provided (marked.part (.head _))
      rwa [same.subst other_solves, Ty.substVars, Ty.subst_tuple] at typed
    have base := bound_typed (steps.grows.keeps.solves solves) relates (provided.earlier steps)
    obtain ⟨entries, tuples, entries_arity, tuples_typed, parts, uses, inner⟩ := parted.exists_entries
      (fun elements => HasType provides general scope bound.erase (.tuple elements)) steps solves relates
      provided bound_typed
    have body_typed := body_ih solves inner provided (marked.part (.tail _ (.head _)))
    have symbols : (binders.map fun binder => (⟨binder.name.symbol, binder.hint.map id⟩ :
        Binder Symbol Annotation)).map Binder.name = binders.map fun binder => binder.name.symbol := by
      simp [Function.comp_def]
    rw [← symbols] at body_typed
    refine .letTuple base (by simp [arity]) (by simp [entries_arity]) tuples_typed parts ?_ body_typed
    intro index _ entry binder_here found
    rw [getElem?_map] at binder_here
    obtain ⟨binder, here, rfl⟩ := Option.map_eq_some_iff.mp binder_here
    exact uses index binder entry here found
  | @apply _ _ note callee args _ _ same callee_ih args_ih =>
    have callee_typed := callee_ih solves relates provided (marked.part (.head _))
    rw [same.subst solves, Ty.substVars, Ty.subst_function] at callee_typed
    simp only [Expr.erase, Expr.map, Expr.mapAll_eq]
    apply HasType.apply callee_typed
    · simp
    · intro pair mem
      obtain ⟨arg, there, rfl⟩ := zip_types mem
      exact args_ih arg there solves relates provided (marked.part (.tail _ (mem_map_of_mem there)))
  | @tuple _ _ span elements _ ih =>
    simp only [Expr.erase, Expr.map, Expr.mapAll_eq, Expr.type, Expr.note, Ty.substVars, Ty.subst_tuple]
    apply HasType.tuple
    · simp
    · intro pair mem
      obtain ⟨element, there, rfl⟩ := zip_types mem
      exact ih element there solves relates provided (marked.part (mem_map_of_mem there))
  | arrayMake _ size_same _ size_ih element_ih =>
    have size_typed := size_ih solves relates provided (marked.part (.head _))
    rw [← size_same.subst solves] at size_typed
    exact .arrayMake size_typed (element_ih solves relates provided (marked.part (.tail _ (.head _))))
  | @arrayLit _ _ span type elements _ same ih =>
    simp only [Expr.erase, Expr.map, Expr.mapAll_eq]
    apply HasType.arrayLit
    intro _ mem
    obtain ⟨element, there, rfl⟩ := mem_map.mp mem
    have typed := ih element there solves relates provided (marked.part (mem_map_of_mem there))
    rwa [← (same element there).subst solves] at typed
  | arrayLen _ same ih =>
    have typed := ih solves relates provided (marked.part (.head _))
    rw [← same.subst solves] at typed
    exact .arrayLen typed
  | arrayGet _ array_same _ index_same array_ih index_ih =>
    have array_typed := array_ih solves relates provided (marked.part (.head _))
    have index_typed := index_ih solves relates provided (marked.part (.tail _ (.head _)))
    rw [← array_same.subst solves] at array_typed
    rw [← index_same.subst solves] at index_typed
    exact .arrayGet array_typed index_typed
  | arraySet _ array_same _ index_same _ value_same array_ih index_ih value_ih =>
    have array_typed := array_ih solves relates provided (marked.part (.head _))
    have index_typed := index_ih solves relates provided (marked.part (.tail _ (.head _)))
    have value_typed := value_ih solves relates provided (marked.part (.tail _ (.tail _ (.head _))))
    rw [← array_same.subst solves] at array_typed
    rw [← index_same.subst solves] at index_typed
    rw [← value_same.subst solves] at value_typed
    exact .arraySet array_typed index_typed value_typed
  | some _ ih => exact .some (ih solves relates provided (marked.part (.head _)))
  | none => exact .none
  | @matchOption _ ctx span binder target someArm noneArm _ plain target_same hinted _ _ same target_ih
      some_ih none_ih =>
    have target_typed := target_ih solves relates provided (marked.part (.head _))
    rw [← target_same.subst solves] at target_typed
    have inner : Relates general solution (ctx.bind binder.name.symbol binder.name.type)
        ((binder.name.symbol.number, .plain (binder.name.type.substVars solution)) :: scope) :=
      relates.bind fun _ choice => (Ty.subst_of_plain plain solution choice).symm
    have some_typed := some_ih solves inner provided (marked.part (.tail _ (.head _)))
    have none_typed := none_ih solves relates provided (marked.part (.tail _ (.tail _ (.head _))))
    rw [← same.subst solves] at none_typed
    exact .matchOption target_typed some_typed none_typed
  | typed _ _ ih => exact .typed (ih solves relates provided (marked.part (.head _)))

end MiddleEnd
