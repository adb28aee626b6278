import MiddleEnd.Proofs.Typing.Watch

/-! The single steps of inference keep the types in play. -/

namespace MiddleEnd

open List

variable {left right found : Ty} {level' : Nat} {watch : Watch} {ctx : Context}
  {state state' : Inference} {scope : List Symbol} {hint : Option Annotation}
  {params : List (Binder Symbol Annotation)}

namespace Store

variable {store : Store} {level : Nat} {type : Ty}

theorem isGeneralized_of_le {n : Nat} (unmade : store.size ≤ n) : store.isGeneralized n = false := by
  by_contra frozen
  exact absurd (isGeneralized_lt (by simpa using frozen)) (Nat.not_lt_of_le unmade)

theorem leaves_fresh (store : Store) (level : Nat) : store.Leaves (store.fresh level).1 :=
  .of_links (by rw [size_fresh]; omega) (link?_fresh store level)
    fun n before => (store.isGeneralized_fresh level n).trans before

theorem freshFor_level (store : Store) (level : Nat) (numbers : List Nat) {n : Nat}
    (unmade : store.size ≤ n) (made : n < (store.freshFor level numbers).1.size) :
    (store.freshFor level numbers).1.level n = level := by
  induction numbers generalizing store with
  | nil => exact absurd made (Nat.not_lt_of_le unmade)
  | cons _ numbers ih =>
    rw [freshFor] at made ⊢
    by_cases here : n = store.size
    · subst here
      have kept := ((store.fresh level).1.freshFor_spec level numbers).level_of_lt
        (by rw [size_fresh]; exact Nat.lt_succ_self _ : store.size < (store.fresh level).1.size)
      exact kept.trans (level_fresh_self store level)
    · exact ih (store.fresh level).1 (by rw [size_fresh]; omega) made

theorem isGeneralized_foldl_freeze_of_not_mem {numbers : List Nat} {n : Nat}
    (unused : n ∉ numbers) :
    (numbers.foldl freeze store).isGeneralized n = store.isGeneralized n := by
  induction numbers generalizing store with
  | nil => rfl
  | cons _ _ ih =>
    rw [mem_cons, not_or] at unused
    exact (ih unused.2).trans (by rw [isGeneralized_freeze, if_neg (Ne.symm unused.1)])

theorem sameLinks_generalize (store : Store) (level : Nat) (type : Ty) :
    store.SameLinks (store.generalize level type).1 :=
  sameLinks_foldl_freeze _ store

theorem level_generalize (store : Store) (level : Nat) (type : Ty) (n : Nat) :
    (store.generalize level type).1.level n = store.level n :=
  level_foldl_freeze _ store n

theorem mem_generics_generalize (plain : (store.expand type).generics = []) {n : Nat} :
    n ∈ (store.generalize level type).2.generics ↔
      n ∈ (store.expand type).vars ∧ level < store.level n := by
  simp only [generalize, Ty.substVars, Ty.mem_generics_subst, plain, not_mem_nil, false_and,
    exists_false, or_false]
  constructor
  · rintro ⟨other, there, mem⟩
    split at mem
    · next deep =>
      obtain rfl : n = other := by simpa using mem
      exact ⟨there, by simpa using deep⟩
    · simp at mem
  · rintro ⟨there, deep⟩
    exact ⟨n, there, by simp [deep]⟩

theorem mem_vars_generalize {n : Nat} :
    n ∈ (store.generalize level type).2.vars ↔
      n ∈ (store.expand type).vars ∧ store.level n ≤ level := by
  simp only [generalize, Ty.substVars, Ty.mem_vars_subst, Ty.vars_generic, not_mem_nil, and_false,
    exists_false, or_false]
  constructor
  · rintro ⟨other, there, mem⟩
    split at mem
    · simp at mem
    · next shallow =>
      obtain rfl : n = other := by simpa using mem
      exact ⟨there, by simpa using shallow⟩
  · rintro ⟨there, shallow⟩
    exact ⟨n, there, by simp [Nat.not_lt.mpr shallow]⟩

end Store

namespace Watch

def unwatched : Watch := ⟨False, [], 0⟩

theorem holds_unwatched {level : Nat} {type : Ty} (mono : state.store.Mono level type) :
    unwatched.Holds state level type :=
  ⟨mono.covers, fun n mem => ⟨mono.levels n mem, False.elim, .inl (Nat.zero_le _)⟩,
    eq_nil_iff_forall_not_mem.mp mono.plain⟩

theorem good_unwatched (good : state.Good) : unwatched.Good state :=
  fun entry mem => holds_unwatched (good entry mem)

structure Scheme (watch : Watch) (state : Inference) (level : Nat) (scheme : Ty) : Prop where
  vars : ∀ n ∈ scheme.vars, watch.Holds state level (.var n)
  frozen (alone : watch.alone) : ∀ n ∈ scheme.generics,
    state.store.isGeneralized n = true ∧ state.store.link? n = none

structure Ripe (watch : Watch) (ctx : Context) (state : Inference) (level : Nat) (type : Ty) :
    Prop where
  mono : state.store.Mono (level + 1) type
  shallow : ∀ n ∈ (state.store.expand type).vars, state.store.level n ≤ level →
    watch.Holds state level (.var n)
  unused (alone : watch.alone) : ∀ n ∈ (state.store.expand type).vars,
    level < state.store.level n → ∀ entry ∈ ctx.locals, n ∉ entry.2.generics

structure Fits (watch : Watch) (ctx : Context) (state : Inference) (level : Nat)
    (scope : List Symbol) : Prop where
  known : ctx.At state level scope
  good : watch.Good state
  aliases : ∀ type ∈ ctx.aliases, watch.Holds state 0 type
  locals : ∀ entry ∈ ctx.locals, watch.Scheme state level entry.2

variable {level : Nat} {type : Ty}

theorem Holds.scheme (holds : watch.Holds state level type) : watch.Scheme state level type := by
  refine ⟨(holds_iff.mp holds).1, fun _ _ mem => ?_⟩
  rw [(holds_iff.mp holds).2] at mem
  cases mem

theorem Holds.ripe (holds : watch.Holds state (level + 1) type)
    (fits : watch.Fits ctx state level scope) : watch.Ripe ctx state level type := by
  refine ⟨holds.mono, fun n mem shallow => ?_, fun alone n mem _ entry there here => ?_⟩
  · obtain ⟨-, unfrozen, tied⟩ := holds.vars n mem
    exact holds_of_unlinked (Store.Covers.expand holds.covers n mem)
      (Store.link?_of_mem_expand mem) ⟨shallow, unfrozen, tied⟩
  · have thawed := (holds.vars n mem).unfrozen alone
    rw [((fits.locals entry there).frozen alone n here).1] at thawed
    cases thawed

theorem Scheme.later {later : Inference} (scheme : watch.Scheme state level type) (le : level ≤ level')
    (moves : watch.Moves level' state later) : watch.Scheme later level type := by
  refine ⟨fun n mem => moves.holds_at le (scheme.vars n mem), fun alone n mem => ?_⟩
  obtain ⟨frozen, unlinked⟩ := scheme.frozen alone n mem
  exact ⟨(moves.leaves alone).frozen frozen, (moves.leaves alone).unlinked frozen unlinked⟩

namespace Fits

section

variable (fits : watch.Fits ctx state level scope)
include fits

theorem later (le : level ≤ level') (moves : watch.Moves level' state state') :
    watch.Fits ctx state' level scope :=
  ⟨fits.known.later moves.steps, moves.good,
    fun type mem => moves.holds_at (Nat.zero_le _) (fits.aliases type mem),
    fun entry mem => (fits.locals entry mem).later le moves⟩

theorem after (moves : watch.Moves level state state') : watch.Fits ctx state' level scope :=
  fits.later (Nat.le_refl _) moves

theorem deeper : watch.Fits ctx state (level + 1) scope :=
  ⟨fits.known.deeper, fits.good, fits.aliases, fun entry mem =>
    ⟨fun n here => ((fits.locals entry mem).vars n here).deeper (Nat.le_succ level),
      (fits.locals entry mem).frozen⟩⟩

theorem visible_of {scope' : List Symbol}
    (subset : ∀ symbol ∈ scope', symbol ∈ scope) : watch.Fits ctx state level scope' :=
  { fits with known := fits.known.visible_of subset }

theorem bind (symbol : Symbol)
    (scheme : watch.Scheme state level type) :
    watch.Fits (ctx.bind symbol type) state level (symbol :: scope) := by
  refine ⟨fits.known.bind symbol fun n mem => (scheme.vars n mem).mono, fits.good,
    fits.aliases, fun entry mem => ?_⟩
  rcases mem_cons.mp mem with rfl | mem
  · exact scheme
  · exact fits.locals entry mem

theorem bindAll (binders : List (Binder Bound Annotation))
    (schemes : ∀ binder ∈ binders, watch.Scheme state level binder.name.type) :
    watch.Fits (ctx.bindAll binders) state level
      ((binders.map Binder.erase).map Binder.name ++ scope) := by
  induction binders generalizing ctx scope with
  | nil => exact fits
  | cons binder _ ih =>
    have rest := ih (fits.bind binder.name.symbol (schemes binder (.head _)))
      fun other mem => schemes other (.tail _ mem)
    refine rest.visible_of fun symbol mem => ?_
    simp only [Binder.erase, map_cons, mem_cons, mem_append] at mem ⊢
    grind

end

theorem of_at (good : state.Good) (known : ctx.At state level scope) :
    unwatched.Fits ctx state level scope :=
  ⟨known, good_unwatched good, fun type mem => holds_unwatched (known.aliases type mem),
    fun entry mem => ⟨fun n here => holds_unwatched (known.locals entry mem n here), False.elim⟩⟩

end Fits

end Watch

namespace Infer

variable {level : Nat}

/-! ### Fresh variables -/

theorem moves_fresh (good : watch.Good state) (level : Nat) (empties : List Nat) (level' : Nat) :
    watch.Moves level' state { state with store := (state.store.fresh level).1, empties } := by
  refine good.moves (state.store.grows_fresh level)
    (fun n before => (state.store.isGeneralized_fresh level n).trans before)
    (fun _ => state.store.leaves_fresh level) fun holds => ?_
  exact holds.of_links (state.store.grows_fresh level).keeps (state.store.link?_fresh level)
    (fun n made => Store.level_fresh_of_lt made)
    fun n _ _ _ thawed => (state.store.isGeneralized_fresh level n).trans thawed

theorem holds_fresh {empties : List Nat} (deep : watch.base ≤ level) :
    watch.Holds { state with store := (state.store.fresh level).1, empties } level
      (.var state.store.size) := by
  refine Watch.holds_of_unlinked ?_ ?_ ⟨?_, fun _ => ?_, .inl ?_⟩
  · exact (state.store.size_fresh level).symm ▸ Nat.lt_succ_self _
  · exact (state.store.link?_fresh level _).trans state.store.link?_size
  · exact Nat.le_of_eq (state.store.level_fresh_self level)
  · exact (state.store.isGeneralized_fresh level _).trans (Store.isGeneralized_of_le (Nat.le_refl _))
  · exact (state.store.level_fresh_self level).symm ▸ deep

theorem fresh_moves (good : watch.Good state) (deep : watch.base ≤ level) :
    Infers (fresh level) state fun type later =>
      watch.Quiet level state later ∧ watch.Holds later level type :=
  .get (.set (.pure ⟨⟨moves_fresh good level _ level, rfl⟩, holds_fresh deep⟩))

theorem freshEmpty_moves (good : watch.Good state) (deep : watch.base ≤ level) :
    Infers (freshEmpty level) state fun type later =>
      watch.Moves level state later ∧ watch.Holds later level type ∧ ∀ expr : TypedExpr, expr.parts = [] →
        expr.ref? = none → (∀ n, type = .var n → expr.element? = some n) → Notes state [expr] later :=
  .get (.set (.pure ⟨moves_fresh good level _ level, holds_fresh deep,
    fun _ parts no_ref element => .empty parts no_ref (element _ rfl) level⟩))

theorem freshAll_moves (good : watch.Good state) (deep : watch.base ≤ level) (count : Nat) :
    Infers (freshAll level count) state fun types later =>
      watch.Quiet level state later ∧ types.length = count ∧
        ∀ type ∈ types, watch.Holds later level type := by
  induction count generalizing state with
  | zero => exact .pure ⟨good.refl level, rfl, forall_mem_nil _⟩
  | succ _ ih =>
    refine .bind (fresh_moves good deep) fun _ _ spec => ?_
    obtain ⟨first_moves, first_holds⟩ := spec
    refine .map (ih first_moves.good) fun _ later ⟨rest_moves, length, rest_hold⟩ => ?_
    refine ⟨first_moves.trans rest_moves, by simp [length], fun type mem => ?_⟩
    rcases mem_cons.mp mem with rfl | mem
    · exact rest_moves.holds first_holds
    · exact rest_hold type mem

/-! ### Unification -/

theorem unify_run {span : Span} {value : Unit} {later : Inference}
    (run : (unify left right span).run state = .ok (value, later)) :
    (state.store.unify left right).2 = none ∧
      later = { state with store := (state.store.unify left right).1 } := by
  have meets : Meets (fun _ => True) (unify left right span) state fun _ later =>
      (state.store.unify left right).2 = none ∧
        later = { state with store := (state.store.unify left right).1 } := by
    refine .get ?_
    split
    · next store unified => exact ⟨by rw [unified], by rw [unified]⟩
    · split <;> exact .throw trivial
  exact meets.of_run run

theorem holds_unify (left_holds : watch.Holds state level left)
    (right_holds : watch.Holds state level right) (success : (state.store.unify left right).2 = none)
    {type : Ty} (holds : watch.Holds state level type) :
    watch.Holds { state with store := (state.store.unify left right).1 } level type := by
  have unified := (Store.attempt_unify left_holds right_holds).unified
  have lowered := (Store.lowered_unify left_holds right_holds success).2
  have admits := unified.admits holds
  refine ⟨admits.covers, fun n mem => ?_, admits.generics⟩
  have unlinked := Store.link?_of_mem_expand mem
  obtain ⟨level_le, unfrozen, tied⟩ := admits.vars n mem
  have here : n ∈ ((state.store.unify left right).1.expand (.var n)).vars := by
    rw [Store.expand_of_unlinked unlinked]
    simp
  refine ⟨Nat.le_trans (unified.level_le n) level_le,
    fun alone => (unified.isGeneralized n).trans (unfrozen alone), ?_⟩
  rcases lowered n unlinked with same | ⟨source, free, level_eq, behind⟩
  · exact tied.imp (fun deep => same.symm ▸ deep) fun rooted => rooted.behind unified.keeps here
  · -- The variable that has taken this one down is linked now, so it was in play.
    have source_tied : watch.base ≤ state.store.level source ∨ watch.Rooted state source := by
      by_cases linked : (state.store.unify left right).1.link? source = none
      · rw [Store.expand_of_unlinked linked] at behind
        obtain rfl : n = source := by simpa using behind
        exact tied
      · exact (unified.touched free linked).tied
    exact source_tied.imp (fun deep => level_eq ▸ deep) fun rooted => rooted.behind unified.keeps behind

theorem unify_moves (good : watch.Good state) (left_holds : watch.Holds state level left)
    (right_holds : watch.Holds state level right) (span : Span) :
    Infers (unify left right span) state fun _ later =>
      watch.Quiet level state later ∧ later.Same left right := by
  refine (unify_spec good.good left_holds.mono right_holds.mono span).with_run
    fun _ later run spec => ⟨?_, spec.2⟩
  obtain ⟨success, rfl⟩ := unify_run run
  have unified := (Store.attempt_unify left_holds right_holds).unified
  refine ⟨good.moves spec.1.reached.grows (fun n => ?_) (fun alone => ?_)
    (holds_unify left_holds right_holds success), rfl⟩
  · exact fun before => (unified.isGeneralized n).trans before
  · exact unified.leaves fun n opened => opened.unfrozen alone

/-! ### Generalization -/

theorem holds_generalize {type : Ty} (holds : watch.Holds state level found) :
    watch.Holds { state with store := (state.store.generalize level type).1 } level found := by
  have same := state.store.sameLinks_generalize level type
  refine holds.of_links same.keeps same.2 (fun n _ => state.store.level_generalize level type n)
    fun n _ _ _ thawed => ?_
  refine (Store.isGeneralized_foldl_freeze_of_not_mem fun mem => ?_).trans thawed
  have deep : level < state.store.level n := by simpa using (mem_filter.mp mem).2
  omega

theorem holds_generalize_of_not_alone (not_alone : ¬ watch.alone) {type : Ty}
    (holds : watch.Holds state level' found) :
    watch.Holds { state with store := (state.store.generalize level type).1 } level' found := by
  have same := state.store.sameLinks_generalize level type
  exact holds.of_links same.keeps same.2 (fun n _ => state.store.level_generalize level type n)
    fun _ _ alone => absurd alone not_alone

theorem generalize_moves (fits : watch.Fits ctx state level scope) {type : Ty}
    (ripe : watch.Ripe ctx state level type) :
    Infers (generalize level type) state fun scheme later =>
      watch.Quiet level state later ∧ watch.Scheme later level scheme ∧
        Generalized state later ctx type scheme ∧
        (watch.alone → ∀ n ∈ scheme.generics, ∀ entry ∈ ctx.locals, n ∉ entry.2.generics) ∧
        later = { state with store := (state.store.generalize level type).1 } := by
  refine (generalize_spec fits.good.good fits.known ripe.mono).with_run fun scheme later run spec => ?_
  obtain ⟨steps, -, generalized⟩ := spec
  obtain ⟨rfl, rfl⟩ : scheme = (state.store.generalize level type).2 ∧
      later = { state with store := (state.store.generalize level type).1 } := by
    cases run
    exact ⟨rfl, rfl⟩
  have same := state.store.sameLinks_generalize level type
  have deeper {n : Nat} := @Store.mem_generics_generalize state.store level type ripe.mono.plain n
  refine ⟨?_, ⟨fun n mem => ?_, fun _ n mem => ?_⟩, generalized, fun alone n mem => ?_, rfl⟩
  · refine ⟨fits.good.moves steps.reached.grows (fun n before => steps.reached.frozen before) ?_
      holds_generalize, rfl⟩
    exact fun _ => .of_links (Nat.le_of_eq same.1.symm) same.2 fun n before => steps.reached.frozen before
  · obtain ⟨there, shallow⟩ := Store.mem_vars_generalize.mp mem
    exact holds_generalize (ripe.shallow n there shallow)
  · refine ⟨generalized.frozen n mem, (same.2 n).trans ?_⟩
    exact Store.link?_of_mem_expand (deeper.mp mem).1
  · exact ripe.unused alone n (deeper.mp mem).1 (deeper.mp mem).2

/-! ### Annotations -/

section

variable {aliases : List Ty}

mutual
theorem annotated_moves (hint : Annotation) {state : Inference} (good : watch.Good state)
    (deep : watch.base ≤ level) (known : ∀ type ∈ aliases, watch.Holds state 0 type)
    (within : hint.Within aliases.length) :
    Infers (annotated aliases level hint) state fun type later =>
      watch.Quiet level state later ∧ watch.Holds later level type ∧ Describes aliases hint type := by
  match hint with
  | .hole _ => exact (fresh_moves good deep).weaken fun type later spec => ⟨spec.1, spec.2, trivial⟩
  | .prim _ primitive => exact .pure ⟨good.refl level, watch.holds_prim state level primitive, rfl⟩
  | .synonym _ index =>
    have exists_ : index < aliases.length := within index (by simp [ Annotation.typeNames])
    have found : aliases[index]? = some aliases[index] := getElem?_eq_getElem exists_
    rw [annotated, found]
    exact .pure ⟨good.refl level, (known _ (getElem_mem exists_)).deeper (Nat.zero_le level), found⟩
  | .app _ con inner =>
    rw [annotated]
    refine .map (annotated_moves inner good deep known fun index mem => within index ?_)
      fun element later spec => ⟨spec.1, Watch.holds_app.mpr spec.2.1, element, rfl, spec.2.2⟩
    simpa [ Annotation.typeNames] using mem
  | .tuple _ inner =>
    rw [annotated]
    refine .map (annotatedAll_moves inner good deep known fun hint mem index there => within index ?_)
      fun elements later spec => ⟨spec.1, Watch.holds_tuple spec.2.1, elements, rfl, spec.2.2⟩
    rw [ Annotation.typeNames, Annotation.typeNamesOf_eq]
    exact mem_flatMap.mpr ⟨hint, mem, there⟩
  | .function _ inner last =>
    rw [annotated]
    refine .bind (annotatedAll_moves inner good deep known fun hint mem index there => within index ?_)
      fun params _ params_spec => ?_
    · rw [ Annotation.typeNames, Annotation.typeNamesOf_eq]
      exact mem_append_left _ (mem_flatMap.mpr ⟨hint, mem, there⟩)
    obtain ⟨params_moves, params_hold, params_described⟩ := params_spec
    refine .map (annotated_moves last params_moves.good deep
      (fun type mem => params_moves.holds_at (Nat.zero_le level) (known type mem))
      fun index there => within index ?_) fun result later spec => ?_
    · rw [ Annotation.typeNames]
      exact mem_append_right _ there
    · obtain ⟨moves, holds, described⟩ := spec
      exact ⟨params_moves.trans moves,
        Watch.holds_function (fun param mem => moves.holds (params_hold param mem)) holds,
        params, result, rfl, params_described, described⟩
theorem annotatedAll_moves (hints : List Annotation) {state : Inference} (good : watch.Good state)
    (deep : watch.base ≤ level) (known : ∀ type ∈ aliases, watch.Holds state 0 type)
    (within : ∀ hint ∈ hints, hint.Within aliases.length) :
    Infers (annotatedAll aliases level hints) state fun types later =>
      watch.Quiet level state later ∧ (∀ type ∈ types, watch.Holds later level type) ∧
        DescribesAll aliases hints types := by
  match hints with
  | [] => exact .pure ⟨good.refl level, forall_mem_nil _, trivial⟩
  | hint :: hints =>
    rw [annotatedAll]
    refine .bind (annotated_moves hint good deep known (within hint (.head _)))
      fun type _ ⟨moves, holds, described⟩ => ?_
    refine .map (annotatedAll_moves hints moves.good deep
      (fun type mem => moves.holds_at (Nat.zero_le level) (known type mem))
      (fun hint mem => within hint (.tail _ mem)))
      fun types later ⟨rest_moves, rest_hold, rest_described⟩ => ?_
    refine ⟨moves.trans rest_moves, fun other mem => ?_, described, rest_described⟩
    rcases mem_cons.mp mem with rfl | mem
    · exact rest_moves.holds holds
    · exact rest_hold other mem
end

end

theorem unify_annotated_moves (fits : watch.Fits ctx state level scope) (deep : watch.base ≤ level)
    {hint : Annotation} (within : hint.Within ctx.aliases.length) {type : Ty}
    (holds : watch.Holds state level type) (span : Span) :
    Infers (do unify (← annotated ctx.aliases level hint) type span) state fun _ later =>
      watch.Quiet level state later ∧ Hinted later ctx (some hint) type := by
  refine .bind (annotated_moves hint fits.good deep fits.aliases within) fun _ _ spec => ?_
  obtain ⟨moves, described_holds, describes⟩ := spec
  refine (unify_moves moves.good described_holds (moves.holds holds) span).weaken fun _ later spec => ?_
  exact ⟨moves.trans spec.1, .of_describes describes spec.2⟩

theorem checkHint_moves (fits : watch.Fits ctx state level scope) (deep : watch.base ≤ level)
    (within : ∀ here ∈ hint.toList, here.Within ctx.aliases.length) {type : Ty}
    (holds : watch.Holds state level type) (span : Span) :
    Infers (checkHint ctx level hint type span) state fun _ later =>
      watch.Quiet level state later ∧ Hinted later ctx hint type := by
  cases hint with
  | none => exact .pure ⟨fits.good.refl level, hinted_none⟩
  | some hint => exact unify_annotated_moves fits deep (within hint (by simp)) holds span

/-! ### Variables -/

theorem holds_externals {externals : NameMap External} {type : Ty} (holds : watch.Holds state level type)
    (subset : ∀ entry ∈ state.externals.entries, entry ∈ externals.entries) :
    watch.Holds { state with externals } level type := by
  refine ⟨holds.covers, fun n mem => ?_, holds.generics⟩
  obtain ⟨level_le, unfrozen, tied⟩ := holds.vars n mem
  refine ⟨level_le, unfrozen, tied.imp_right fun ⟨root, there, here⟩ => ⟨root, ?_, here⟩⟩
  rw [mem_append, mem_map] at there ⊢
  exact there.imp_right fun ⟨entry, mem, same⟩ => ⟨entry, subset entry mem, same⟩

theorem externalType_moves (good : watch.Good state) (ctx : Context) (name : String) (level : Nat) :
    Infers (externalType name) state fun type later =>
      watch.Quiet level state later ∧ watch.Holds later 0 type ∧
        Declares later ctx (.external name) type := by
  have moves : Infers (externalType name) state fun type later =>
      state.Steps later → watch.Quiet level state later ∧ watch.Holds later 0 type := by
    refine .get ?_
    split
    · next external found =>
      exact .pure fun _ => ⟨good.refl level, good _ (NameMap.mem_of_find? found)⟩
    · next missing =>
      let externals := state.externals.insert name ⟨.var state.store.size, name⟩
      have first := moves_fresh good 0 state.empties level
      have subset : ∀ entry ∈ state.externals.entries, entry ∈ externals.entries := by
        intro entry mem
        refine mem_cons_of_mem _ (mem_filter.mpr ⟨mem, ?_⟩)
        have differs : entry.1 ≠ name := by
          rintro rfl
          have absent := lookup_eq_none_iff.mp missing entry mem
          simp at absent
        simpa using differs
      -- The new variable is of the outermost level, and the new entry leads to it.
      have holds : watch.Holds
          { state with store := (state.store.fresh 0).1, externals } 0 (.var state.store.size) := by
        refine Watch.holds_of_unlinked ?_ ?_ ⟨?_, fun _ => ?_, .inr ⟨.var state.store.size, ?_, ?_⟩⟩
        · exact (state.store.size_fresh 0).symm ▸ Nat.lt_succ_self _
        · exact (state.store.link?_fresh 0 _).trans state.store.link?_size
        · exact Nat.le_of_eq (state.store.level_fresh_self 0)
        · exact (state.store.isGeneralized_fresh 0 _).trans (Store.isGeneralized_of_le (Nat.le_refl _))
        · exact mem_append_right _ (mem_map.mpr ⟨_, .head _, rfl⟩)
        · rw [Store.expand_of_unlinked ((state.store.link?_fresh 0 _).trans state.store.link?_size)]
          simp
      refine fun steps => ⟨⟨⟨steps.reached, fun entry mem => ?_, first.leaves,
        fun before => holds_externals (first.holds before) subset⟩, rfl⟩, holds⟩
      rcases mem_cons.mp mem with rfl | mem
      · exact holds
      · exact holds_externals (first.good entry (mem_filter.mp mem).1) subset
  refine ((externalType_spec good.good ctx name).and moves).weaken
    fun type later ⟨⟨steps, _, declares⟩, moves⟩ => ?_
  exact ⟨(moves steps).1, (moves steps).2, declares⟩

theorem targetType_moves (fits : watch.Fits ctx state level scope) {target : Target}
    (visible : ∀ symbol, target = .bound symbol → symbol ∈ scope) :
    Infers (targetType ctx target) state fun type later =>
      watch.Quiet level state later ∧ watch.Scheme later level type ∧
        Declares later ctx target type ∧ ((∃ name, target = .external name) → type.generics = []) := by
  cases target with
  | bound symbol =>
    obtain ⟨type, found⟩ := fits.known.visible symbol (visible symbol rfl)
    rw [targetType, found]
    exact .pure ⟨fits.good.refl level, fits.locals _ (mem_of_lookup found), found, by simp⟩
  | external name =>
    refine (externalType_moves fits.good ctx name level).weaken fun type later spec => ?_
    exact ⟨spec.1, (spec.2.1.deeper (Nat.zero_le level)).scheme, spec.2.2, fun _ => spec.2.1.mono.generics⟩

theorem instantiate_moves (good : watch.Good state) (deep : watch.base ≤ level) (name : String)
    {scheme : Ty} (known : watch.Scheme state level scheme) :
    Infers (instantiate level name scheme) state fun made later =>
      watch.Moves level state later ∧ watch.Holds later level made.type ∧ made.scheme = scheme ∧
        made.Fits := by
  have moves : Infers (instantiate level name scheme) state fun made later =>
      watch.Moves level state later ∧ watch.Holds later level made.type := by
    have made := state.store.instance_instantiate level scheme
    have numbers := made.made
    have kept {found : Ty} (empties : List Nat) (holds : watch.Holds state level found) :
        watch.Holds { state with store := (state.store.instantiate level scheme).1, empties } level found :=
      holds.of_links numbers.grows.keeps numbers.link? (fun _ made => numbers.level_of_lt made)
        fun n _ _ _ thawed => (numbers.isGeneralized n).trans thawed
    refine .get (.set (.pure ⟨?_, ?_⟩))
    · refine good.moves numbers.grows
        (fun n before => (numbers.isGeneralized n).trans before) (fun _ => ?_) (kept _)
      exact .of_links numbers.grows.keeps.size_le numbers.link?
        fun n before => (numbers.isGeneralized n).trans before
    · have mono := made.mono fun n mem => (known.vars n mem).mono
      refine Watch.holds_iff.mpr ⟨fun n mem => ?_, mono.generics⟩
      change n ∈ (state.store.instantiate level scheme).2.1.vars at mem
      have number_mono := mono.scheme n mem
      rw [made.type_eq, Ty.substGenerics, Ty.mem_vars_subst] at mem
      obtain ⟨other, there, mem⟩ | ⟨other, there, mem⟩ := mem
      · obtain rfl : n = other := by simpa using mem
        exact kept _ (known.vars n there)
      · obtain ⟨fresh, found, unmade, -⟩ := made.lookup there
        rw [found] at mem
        obtain rfl : n = fresh := by simpa using mem
        have exists_ := number_mono.covers n (by simp)
        have level_eq := state.store.freshFor_level level scheme.generics.eraseDups unmade exists_
        refine Watch.holds_of_unlinked exists_ ?_ ⟨Nat.le_of_eq level_eq, fun _ => ?_, .inl ?_⟩
        · refine (numbers.link? n).trans ?_
          by_contra linked
          exact absurd (Store.lt_of_linked linked) (Nat.not_lt_of_le unmade)
        · exact (numbers.isGeneralized n).trans (Store.isGeneralized_of_le unmade)
        · exact level_eq.symm ▸ deep
  refine ((instantiate_spec good.good name fun n mem => (known.vars n mem).mono).and
    moves).weaken fun made later spec => ?_
  exact ⟨spec.2.1, spec.2.2, spec.1.2.2.1, spec.1.2.2.2⟩

inductive Takes (state : Inference) (ctx : Context) (use : Use) (type : Ty) : Prop where
  | whole {declared : Ty} (declares : Declares state ctx use.target declared)
      (plain : declared.generics = []) (taken : use.instantiation = none)
      (same : state.Same type declared) : Takes state ctx use type
  | copy {symbol : Symbol} {made : Instantiation} (target : use.target = .bound symbol)
      (found : ctx.locals.lookup symbol.number = some made.scheme)
      (taken : use.instantiation = some made) (type_eq : made.type = type) (fits : made.Fits) :
      Takes state ctx use type

theorem Takes.uses {use : Use} {type : Ty} (takes : Takes state ctx use type) :
    Uses state ctx use type := by
  cases takes with
  | whole declares plain taken same => exact .mono declares plain taken same
  | copy target found taken type_eq fits =>
    refine .poly ?_ taken type_eq fits
    rw [target]
    exact found

theorem use_moves (fits : watch.Fits ctx state level scope) (deep : watch.base ≤ level)
    {ref : Reference} (visible : ∀ symbol, ref.target = .bound symbol → symbol ∈ scope) :
    Infers (use ctx level ref) state fun (type, use) later =>
      watch.Moves level state later ∧ watch.Holds later level type ∧ Takes later ctx use type ∧
        use.target = ref.target ∧ use.order = ref.order ∧
        (state.Dated → ∀ note, Notes state [.var note use] later) := by
  unfold use
  refine .bind (targetType_moves fits visible) fun declared middle ⟨moves, scheme, declares, simple⟩ => ?_
  have known : middle.store.Scheme level declared := fun n mem => (scheme.vars n mem).mono
  refine .get ?_
  dsimp only
  split
  · next poly =>
    have whole := resolve_of_isPolymorphic known poly
    rw [whole] at poly ⊢
    refine .map ((instantiate_moves moves.good deep _ scheme).and
      (instantiate_notes middle level _ _ ref.target ref.order)) fun _ later spec => ?_
    obtain ⟨⟨rest_moves, holds, rfl, fits⟩, notes⟩ := spec
    refine ⟨moves.toMoves.trans rest_moves, holds, ?_, rfl, rfl,
      fun dated note => moves.notes.trans (notes (moves.notes.dated dated) note)⟩
    cases target : ref.target with
    | bound _ =>
      rw [target] at declares
      exact .copy rfl declares rfl rfl fits
    | external name =>
      rw [Ty.isPolymorphic, simple ⟨name, target⟩] at poly
      cases poly
  · next plain =>
    have no_generics := generics_eq_nil plain
    have holds : watch.Holds middle level declared := Watch.holds_iff.mpr ⟨scheme.vars, no_generics⟩
    refine .pure ⟨moves, holds.resolve, .whole declares no_generics rfl ?_, rfl, rfl,
      fun _ _ => moves.notes.whole rfl⟩
    exact middle.store.expand_resolve declared

/-! ### Binders -/

theorem parameters_moves (fits : watch.Fits ctx state level scope) (deep : watch.base ≤ level)
    (within : ∀ hint ∈ params.flatMap (fun param => param.hint.toList),
      hint.Within ctx.aliases.length) :
    Infers (parameters ctx level params) state fun params' later =>
      watch.Quiet level state later ∧ params'.map Binder.erase = params ∧
        ∀ param ∈ params', watch.Holds later level param.name.type ∧
          Hinted later ctx param.hint param.name.type := by
  induction params generalizing state with
  | nil => exact .pure ⟨fits.good.refl level, rfl, forall_mem_nil _⟩
  | cons _ _ ih =>
    rw [flatMap_cons] at within
    rw [parameters]
    refine .bind (fresh_moves fits.good deep) fun type _ ⟨fresh_moves, holds⟩ => ?_
    refine .bind (checkHint_moves (fits.after fresh_moves) deep
      (fun hint mem => within hint (mem_append_left _ mem)) holds _)
      fun _ _ ⟨hint_moves, hinted⟩ => ?_
    have moves := fresh_moves.trans hint_moves
    refine .map (ih (fits.after moves) fun hint mem => within hint (mem_append_right _ mem))
      fun params' later ⟨rest_moves, erased, rest⟩ => ?_
    refine ⟨moves.trans rest_moves, by simp [Binder.erase, erased], fun other mem => ?_⟩
    rcases mem_cons.mp mem with rfl | mem
    · exact ⟨rest_moves.holds (hint_moves.holds holds), hinted.later rest_moves.reached⟩
    · exact rest other mem

theorem signature_moves (fits : watch.Fits ctx state level scope) (deep : watch.base ≤ level)
    {result : Option Annotation}
    (within : ∀ hint ∈ params.flatMap (fun param => param.hint.toList) ++ result.toList,
      hint.Within ctx.aliases.length) :
    Infers (signature ctx level params result) state fun (params', returned) later =>
      watch.Quiet level state later ∧ params'.map Binder.erase = params ∧
        (∀ param ∈ params', watch.Holds later level param.name.type ∧
          Hinted later ctx param.hint param.name.type) ∧
        watch.Holds later level returned ∧ Hinted later ctx result returned := by
  refine .bind (parameters_moves fits deep fun hint mem => within hint (mem_append_left _ mem))
    fun params' _ spec => ?_
  obtain ⟨param_moves, erased, params_known⟩ := spec
  refine .bind (fresh_moves param_moves.good deep) fun returned _ ⟨fresh_moves, returned_holds⟩ => ?_
  refine .map (checkHint_moves (fits.after (param_moves.trans fresh_moves)) deep
    (fun hint mem => within hint (mem_append_right _ mem)) returned_holds _)
    fun _ later ⟨hint_moves, hinted⟩ => ?_
  have onward := fresh_moves.trans hint_moves
  exact ⟨param_moves.trans onward, erased, fun param mem => ⟨onward.holds (params_known param mem).1,
    (params_known param mem).2.later onward.reached⟩, hint_moves.holds returned_holds, hinted⟩

structure Binds (watch : Watch) (state : Inference) (ctx : Context) (level : Nat)
    (binder : Binder Bound Annotation) (type : Ty) : Prop where
  scheme : watch.Scheme state level binder.name.type
  same : state.Same binder.name.type.thaw type
  hinted : Hinted state ctx binder.hint type
  unused (alone : watch.alone) : ∀ n ∈ binder.name.type.generics, ∀ entry ∈ ctx.locals,
    n ∉ entry.2.generics

theorem Binds.later {later : Inference} {binder : Binder Bound Annotation} {type : Ty}
    (binds : Binds watch state ctx level binder type) (moves : watch.Moves level state later) :
    Binds watch later ctx level binder type :=
  ⟨binds.scheme.later (Nat.le_refl _) moves, binds.same.later moves.reached,
    binds.hinted.later moves.reached, binds.unused⟩

theorem generalize_binds (fits : watch.Fits ctx state level scope) {type : Ty}
    (ripe : watch.Ripe ctx state level type) (hinted : Hinted state ctx hint type)
    (symbol : Symbol) : Infers (generalize level type) state fun scheme later =>
      watch.Quiet level state later ∧ Binds watch later ctx level ⟨⟨symbol, scheme⟩, hint⟩ type ∧
        Generalized state later ctx type scheme ∧
        later = { state with store := (state.store.generalize level type).1 } := by
  refine (generalize_moves fits ripe).weaken fun scheme later ⟨moves, known, generalized, unused, later_eq⟩ =>
    ⟨moves, ⟨known, ?_, hinted.later moves.reached, unused⟩, generalized, later_eq⟩
  rw [Inference.Same, generalized.thaw, moves.reached.grows.keeps.expand_expand]

theorem ripe_generalize {type other : Ty} (ripe : watch.Ripe ctx state level other) :
    watch.Ripe ctx { state with store := (state.store.generalize level type).1 } level other := by
  have same := state.store.sameLinks_generalize level type
  refine ⟨(state.store.grows_generalize level type).mono ripe.mono, fun n mem shallow => ?_,
    fun alone n mem deep => ?_⟩
  · rw [same.expand] at mem
    rw [state.store.level_generalize] at shallow
    exact holds_generalize (ripe.shallow n mem shallow)
  · rw [same.expand] at mem
    rw [state.store.level_generalize] at deep
    exact ripe.unused alone n mem deep

theorem elements_moves (fits : watch.Fits ctx state level scope) (deep : watch.base ≤ level + 1)
    {binders : List (Binder Symbol Annotation)} {types : List Ty}
    (lengths : types.length = binders.length)
    (within : ∀ hint ∈ binders.flatMap (fun binder => binder.hint.toList),
      hint.Within ctx.aliases.length)
    (plain : watch.alone → ∀ binder ∈ binders, binder.hint = none)
    (ripe : ∀ type ∈ types, watch.Ripe ctx state level type)
    (in_play : ¬ watch.alone → ∀ type ∈ types, watch.Holds state (level + 1) type) :
    Infers (elements ctx level binders types) state fun binders' later =>
      watch.Quiet level state later ∧ binders'.map Binder.erase = binders ∧
        Parted state later ctx binders' types ∧
        ∀ pair ∈ binders'.zip types, Binds watch later ctx level pair.1 pair.2 := by
  induction binders generalizing state types with
  | nil =>
    obtain rfl := length_eq_zero_iff.mp lengths
    exact .pure ⟨fits.good.refl level, rfl, .nil, forall_mem_nil _⟩
  | cons binder _ ih =>
    obtain ⟨type, types, rfl⟩ := exists_cons_of_length_eq_add_one lengths
    rw [flatMap_cons] at within
    -- An annotation is there only if generalized variables are not watched.
    have hint_spec : Infers (checkHint ctx (level + 1) binder.hint type binder.name.span) state
        fun _ middle => watch.Quiet (level + 1) state middle ∧ Hinted middle ctx binder.hint type ∧
          (∀ other ∈ type :: types, watch.Ripe ctx middle level other) ∧
          (¬ watch.alone → ∀ other ∈ type :: types, watch.Holds middle (level + 1) other) := by
      by_cases alone : watch.alone
      · rw [plain alone binder mem_cons_self]
        exact .pure ⟨fits.good.refl _, hinted_none, ripe, in_play⟩
      · refine (checkHint_moves fits.deeper deep
          (fun hint mem => within hint (mem_append_left _ mem))
          (in_play alone type (.head _)) _).weaken fun _ middle spec => ?_
        have hold (other : Ty) (mem : other ∈ type :: types) : watch.Holds middle (level + 1) other :=
          spec.1.holds (in_play alone other mem)
        exact ⟨spec.1, spec.2,
          fun other mem => (hold other mem).ripe (fits.later (Nat.le_succ level) spec.1), fun _ => hold⟩
    rw [elements]
    refine .bind hint_spec fun _ middle ⟨hint_moves, hinted, ripe', in_play'⟩ => ?_
    have fits' := fits.later (Nat.le_succ level) hint_moves.toMoves
    refine .bind (generalize_binds fits' (ripe' type (.head _)) hinted binder.name) fun _ _ spec => ?_
    obtain ⟨general_moves, binds, generalized, rfl⟩ := spec
    have moves := (hint_moves.shallower (Nat.le_succ level)).trans general_moves
    refine .map (ih (fits'.after general_moves) (by simpa using lengths)
      (fun hint mem => within hint (mem_append_right _ mem))
      (fun alone binder mem => plain alone binder (.tail _ mem))
      (fun type mem => ripe_generalize (ripe' type (.tail _ mem)))
      ?_) fun binders' later spec => ?_
    · exact fun not_alone other mem =>
        holds_generalize_of_not_alone not_alone (in_play' not_alone other (.tail _ mem))
    · obtain ⟨rest_moves, erased, parted, rest⟩ := spec
      refine ⟨moves.trans rest_moves, by simp [Binder.erase, erased],
        .cons hint_moves.reached hinted (generalized.later rest_moves.reached) (parted.earlier moves.reached),
        fun pair mem => ?_⟩
      rcases mem_cons.mp mem with rfl | mem
      · exact binds.later rest_moves
      · exact rest pair mem

end Infer

end MiddleEnd
