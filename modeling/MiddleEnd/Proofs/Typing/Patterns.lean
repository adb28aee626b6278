import MiddleEnd.Proofs.Typing.Hidden

/-! The parts of a tuple pattern and the declarations of a program link nothing that is hidden. Only the parts
of one pattern are not yet hidden from each other. -/

namespace MiddleEnd

open List

variable {types : List Ty}

namespace Record

open RecordM

variable {level level' : Nat} {play : List Nat} {state : Inference} {ctx : Context}

/-! ### Binders -/

theorem guards_checkHint (ready : Ready level play state) (plays : ctx.Plays play)
    (hint : Option Annotation) {type : Ty} (known : ∀ other ∈ type.vars, other ∈ play) (span : Span) :
    Guards level play state (checkHint ctx level hint type span state) (fun _ => []) := by
  cases hint with
  | none => exact .pure ready fun _ mem => nomatch mem
  | some hint =>
    refine .bind ready (guards_annotated hint ready plays.aliases) fun _ _ ready => ?_
    exact guards_unify ready (fun _ mem => mem_append_left _ mem)
      (fun other mem => mem_append_right _ (known other mem)) span

structure Still (state later : Inference) : Prop where
  links (n : Nat) : later.store.link? n = state.store.link? n
  levels (n : Nat) : later.store.level n = state.store.level n
  frozen {n : Nat} (frozen : state.store.isGeneralized n = true) :
    later.store.isGeneralized n = true

theorem Still.sealed {later : Inference} {n : Nat} (still : Still state later)
    (sealed : Sealed level state n) : Sealed level later n :=
  ⟨still.frozen sealed.frozen, (still.links n).trans sealed.unlinked,
    Nat.lt_of_lt_of_eq sealed.deep (still.levels n).symm⟩

theorem elements_still (ctx : Context) (level : Nat) {binders : List (Binder Symbol Annotation)}
    (plain : ∀ binder ∈ binders, binder.hint = none) (types : List Ty) (state : Inference) :
    (∀ moment ∈ (elements ctx level binders types state).1, ∀ n,
      moment.store.link? n = state.store.link? n) ∧
    ∀ value later, (elements ctx level binders types state).2 = .ok (value, later) →
      Still state later := by
  induction binders generalizing types state with
  | nil =>
    refine ⟨fun _ mem => (nomatch mem), fun value later run => ?_⟩
    cases run
    exact ⟨fun _ => rfl, fun _ => rfl, id⟩
  | cons binder _ ih =>
    cases types with
    | nil =>
      refine ⟨fun _ mem => (nomatch mem), fun value later run => ?_⟩
      cases run
      exact ⟨fun _ => rfl, fun _ => rfl, id⟩
    | cons type types =>
      have same := state.store.sameLinks_generalize level type
      have rest := ih (fun other mem => plain other (.tail _ mem)) types
        { state with store := (state.store.generalize level type).1 }
      rw [elements, plain binder (.head _), checkHint, pure_bind, bind_of_ok rfl, bind_pure_fst]
      refine ⟨forall_mem_append.mpr ⟨forall_mem_singleton.mpr same.2, fun moment mem n =>
        (rest.1 moment mem n).trans (same.2 n)⟩, fun value later run => ?_⟩
      obtain ⟨value, run⟩ := bind_pure_run run
      have still := rest.2 value later run
      exact ⟨fun n => (still.links n).trans (same.2 n),
        fun n => (still.levels n).trans (state.store.level_generalize level type n),
        fun frozen => still.frozen (Store.isGeneralized_foldl_freeze (.inl frozen))⟩

theorem guards_elements (ready : Ready (level + 1) play state) (plays : ctx.Plays play)
    (binders : List (Binder Symbol Annotation))
    (known : ∀ type ∈ types, ∀ other ∈ type.vars, other ∈ play) :
    Guards level play state (elements ctx level binders types state) boundVars := by
  induction binders generalizing types play state with
  | nil =>
    rw [elements]
    · exact .pure_of_eq_nil ready rfl
    · simp
  | cons binder binders ih =>
    cases types with
    | nil => exact .pure_of_eq_nil ready rfl
    | cons type types =>
      obtain ⟨type_known, types_known⟩ := forall_mem_cons.mp known
      rw [elements]
      refine .bind_keep (Nat.le_succ level) (guards_checkHint ready plays _ type_known _)
        fun _ middle _ advances => ⟨play, fun _ mem => mem, ready.after advances, ?_⟩
      have ready := ready.after advances
      -- Whatever is still to come, this part and the next ones do no harm to what is hidden.
      have pending : Guards level play middle ((generalize level type true >>= fun scheme => do
            let rest ← elements ctx level binders types
            return ⟨⟨binder.name, scheme⟩, binder.hint⟩ :: rest) middle) boundVars := by
        refine .bind_keep (Nat.le_succ level)
          (guards_generalize ready type_known (Nat.le_succ level) (by simp)) fun scheme later run advances => ?_
        have shallow : ∀ other ∈ scheme.vars, later.store.Low level other :=
          ((guards_generalize ready type_known (Nat.le_refl level) fun _ => Nat.le_refl level).advances run).vars
        have ready := (ready.after advances).and advances.vars
        refine ⟨_, fun _ mem => mem, ready, ?_⟩
        have rest := ih ready (plays.append _) fun type mem other here =>
          mem_append_right _ (types_known type mem other here)
        refine rest.bind_keep (Nat.le_refl level) fun parts final _ parts_advances => ?_
        have ready : Ready level (boundVars parts ++ scheme.vars) final :=
          ⟨forall_mem_append.mpr ⟨parts_advances.vars, fun other mem =>
            parts_advances.low (shallow other mem)⟩, parts_advances.outer⟩
        refine ⟨_, ?_, ready, .pure ready ?_⟩
        · simp only [mem_append]
          grind
        · simp only [boundVars, flatMap_cons, mem_append]
          grind
      cases hinted : binders.any fun other => other.hint.isSome with
      | true => exact pending
      | false =>
        have plain : ∀ other ∈ binders, other.hint = none := by simpa using hinted
        have still := elements_still ctx level plain types
          { middle with store := (middle.store.generalize level type).1 }
        have sealed := (guards_generalize ready type_known (Nat.le_refl level)
          fun _ => Nat.le_refl level : Guards level play middle (generalize level type false middle) _).sealed
            rfl _ (.head _) rfl
        rw [bind_of_ok rfl] at pending ⊢
        refine pending.settle (fun later mem _ n frozen => ?_) fun _ later run n frozen => ?_
        · rw [bind_pure_fst] at mem
          exact (still.1 later mem n).trans (sealed n frozen).unlinked
        · obtain ⟨parts, run⟩ := bind_pure_run run
          exact (still.2 parts later run).sealed (sealed n frozen)

/-! ### Declarations -/

section

variable (ready : Ready 0 play state)
include ready

theorem guards_aliases {before : List Ty}
    (known : ∀ type ∈ before, ∀ other ∈ type.vars, other ∈ play) (entries : List (Alias Annotation)) :
    Guards 0 play state (quiet (Infer.aliases before entries) state) (fun types => types.flatMap Ty.vars) := by
  induction entries generalizing before play state with
  | nil =>
    refine .pure ready fun other mem => ?_
    obtain ⟨type, there, here⟩ := mem_flatMap.mp mem
    exact known type there other here
  | cons first _ ih =>
    rw [Infer.aliases, quiet_bind]
    refine .bind ready (guards_annotated first.type ready known) fun type _ ready => ih ready ?_
    refine forall_mem_append.mpr ⟨fun type mem other here => ?_, forall_mem_singleton.mpr ?_⟩
    · exact mem_append_right _ (known type mem other here)
    · exact fun other mem => mem_append_left _ mem

theorem guards_insert (name : String) {external : External}
    (known : ∀ other ∈ external.type.vars, other ∈ play) :
    Guards 0 play state (quiet (modify fun state =>
      { state with externals := state.externals.insert name external }) state) (fun _ => []) := by
  refine ⟨.nil, fun _ _ mem => (nomatch mem), fun run => ?_, fun run n hidden => ?_,
    fun _ _ mem => (nomatch mem), fun run n marked => ?_⟩
  · cases run
    refine ⟨id, id, fun other mem => ?_, fun _ mem => (nomatch mem)⟩
    exact (mem_outer_insert mem).elim (fun here => ready.play other (known other here)) (ready.outer other)
  · cases run
    refine ⟨⟨hidden.made, hidden.unlinked, fun _ mem => (nomatch mem), fun other mem => ?_⟩, rfl, id⟩
    exact (mem_outer_insert mem).elim (fun here => hidden.play other (known other here)) (hidden.outer other)
  · cases run
    exact .inl marked

theorem guards_declarations (known : ∀ type ∈ types, ∀ other ∈ type.vars, other ∈ play)
    (entries : List (Declaration Annotation)) :
    Guards 0 play state (quiet (Infer.declarations types entries) state) (fun _ => []) := by
  induction entries generalizing play state with
  | nil => exact .pure_of_eq_nil ready rfl
  | cons first _ ih =>
    rw [Infer.declarations, quiet_bind]
    refine .bind ready (guards_annotated first.type ready known) fun type _ ready => ?_
    rw [quiet_bind]
    refine .bind ready (guards_insert ready _ fun other mem => mem_append_left _ mem)
      fun _ _ ready => ih ready fun type mem other here => ?_
    exact mem_append_right _ (mem_append_right _ (known type mem other here))

theorem guards_prelude (source : Resolved) :
    Guards 0 play state (quiet (Infer.prelude source) state) (fun types => types.flatMap Ty.vars) := by
  rw [Infer.prelude, quiet_bind]
  refine .bind ready (guards_aliases ready (forall_mem_nil _) _) fun types _ ready => ?_
  rw [quiet_bind]
  refine .bind ready (guards_declarations ready (fun type mem other here => ?_) _) fun _ _ ready =>
    .pure ready fun other mem => ?_
  · exact mem_append_left _ (mem_flatMap.mpr ⟨type, mem, here⟩)
  · exact mem_append_right _ (mem_append_left _ mem)

end

theorem ready_start (settings : Settings) : Ready 0 [] (.start settings) := by
  refine ⟨forall_mem_nil _, fun other mem => ?_⟩
  obtain ⟨entry, there, here⟩ := mem_flatMap.mp mem
  exact absurd ((good_builtins settings.seedBuiltins entry there).covers other here) (Nat.not_lt_zero other)

end Record

end MiddleEnd
