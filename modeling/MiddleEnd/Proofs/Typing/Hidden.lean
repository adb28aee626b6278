import MiddleEnd.Proofs.Typing.Record

/-! Hidden variables. A variable is hidden where nothing in play leads to it: no unification can link
it then, and it stays hidden. Generalizing a type hides the variables that it freezes, as they are
deeper than everything in play. -/

namespace MiddleEnd

open List

variable {type left right : Ty} {level n level' : Nat} {stop : Stop} {store : Store} {ctx : Context}
  {play play' : List Nat} {state final middle : Inference} {α : Type} {computation : RecordM α}
  {outcome : List Moment × Except Stop (α × Inference)}

namespace Store

variable {later : Store} {allowed : Nat → Prop}

def Behind (store : Store) (allowed : Nat → Prop) (n : Nat) : Prop :=
  n < store.size ∧ ∀ found ∈ (store.expand (.var n)).vars, allowed found

abbrev Low (store : Store) (level n : Nat) : Prop :=
  store.Behind (fun found => store.level found ≤ level) n

theorem Admits.of_behind (behind : ∀ n ∈ type.vars, store.Behind allowed n) :
    store.Admits allowed (fun _ => True) type where
  covers n mem := (behind n mem).1
  vars found mem := by
    obtain ⟨n, there, mem⟩ := mem_vars_expand.mp mem
    exact (behind n there).2 found mem
  generics _ _ := trivial

theorem Admits.behind {rigid : Nat → Prop} (admits : store.Admits allowed rigid (.var n)) :
    store.Behind allowed n :=
  ⟨admits.covers n (by simp), admits.vars⟩

theorem Low.mono (low : store.Low level n) (le : level ≤ level') : store.Low level' n :=
  ⟨low.1, fun found mem => Nat.le_trans (low.2 found mem) le⟩

theorem Behind.of_links (behind : store.Behind allowed n) (size_le : store.size ≤ later.size)
    (links : ∀ other, later.link? other = store.link? other) : later.Behind allowed n := by
  have keeps : store.Keeps later := ⟨size_le, fun linked => (links _).trans linked⟩
  refine ⟨Nat.lt_of_lt_of_le behind.1 size_le, fun _ mem => ?_⟩
  obtain ⟨between, there, mem⟩ := keeps.mem_vars_expand.mp mem
  have unlinked := (links between).trans (link?_of_mem_expand there)
  rw [expand_of_unlinked unlinked] at mem
  exact mem_singleton.mp mem ▸ behind.2 between there

theorem Behind.imp {allowed' : Nat → Prop} (behind : store.Behind allowed n)
    (weaker : ∀ found, found < store.size → allowed found → allowed' found) :
    store.Behind allowed' n := by
  refine ⟨behind.1, fun found mem => weaker found ?_ (behind.2 found mem)⟩
  exact Covers.expand (fun _ here => mem_singleton.mp here ▸ behind.1) found mem

theorem behind_of_unlinked (made : n < store.size) (unlinked : store.link? n = none)
    (fits : allowed n) : store.Behind allowed n := by
  refine ⟨made, fun _ mem => ?_⟩
  rw [expand_of_unlinked unlinked] at mem
  exact mem_singleton.mp mem ▸ fits

theorem Low.unified (unified : store.Unified (fun _ => True) (fun _ => True) later)
    (low : store.Low level n) : later.Low level n := by
  refine ⟨unified.size_eq ▸ low.1, fun found mem => ?_⟩
  obtain ⟨between, there, mem⟩ := unified.keeps.mem_vars_expand.mp mem
  exact Nat.le_trans (unified.levels (link?_of_mem_expand there) found mem) (low.2 between there)

theorem Behind.unified (unified : store.Unified allowed (fun _ => True) later)
    (behind : store.Behind allowed n) : later.Behind allowed n := by
  have admits : store.Admits allowed (fun _ => True) (.var n) :=
    Admits.of_behind fun _ mem => mem_singleton.mp mem ▸ behind
  exact (unified.admits admits).behind

section

variable (left_admits : store.Admits (· ≠ n) (fun _ => True) left)
  (right_admits : store.Admits (· ≠ n) (fun _ => True) right) (unlinked : store.link? n = none)

include left_admits right_admits unlinked

theorem unlinked_unify : (store.unify left right).1.link? n = none := by
  by_contra linked
  exact (attempt_unify left_admits right_admits).unified.touched unlinked linked rfl

theorem level_unify (success : (store.unify left right).2 = none) :
    (store.unify left right).1.level n = store.level n := by
  have unified := (attempt_unify left_admits right_admits).unified
  rcases (lowered_unify left_admits right_admits success).2 n
    (unlinked_unify left_admits right_admits unlinked) with same | ⟨source, free, level_eq, mem⟩
  · exact same
  by_cases here : source = n
  · exact here ▸ level_eq.symm
  by_cases made : source < store.size
  · exact absurd rfl ((Behind.unified unified (behind_of_unlinked made free here)).2 n mem)
  · have unlinked' : (store.unify left right).1.link? source = none := by
      by_contra linked
      exact made (unified.size_eq ▸ lt_of_linked linked)
    rw [expand_of_unlinked unlinked'] at mem
    exact absurd (mem_singleton.mp mem).symm here

end

end Store

def Inference.outer (state : Inference) : List Nat :=
  state.externals.entries.flatMap fun entry => entry.2.type.vars

/-- Whether the variables that have just been frozen are without links later on. -/
def Moment.Lasts (earlier later : Moment) : Prop :=
  earlier.pending = false → ∀ n ∈ earlier.frozen, later.store.link? n = none

structure Hidden (n : Nat) (play : List Nat) (state : Inference) : Prop where
  made : n < state.store.size
  unlinked : state.store.link? n = none
  play : ∀ other ∈ play, state.store.Behind (· ≠ n) other
  outer : ∀ other ∈ state.outer, state.store.Behind (· ≠ n) other

structure Sealed (level : Nat) (state : Inference) (n : Nat) : Prop where
  frozen : state.store.isGeneralized n = true
  unlinked : state.store.link? n = none
  deep : level < state.store.level n

structure Ready (level : Nat) (play : List Nat) (state : Inference) : Prop where
  play : ∀ other ∈ play, state.store.Low level other
  outer : ∀ other ∈ state.outer, state.store.Low 0 other

structure Advances (level : Nat) (state later : Inference) (vars : List Nat) : Prop where
  frozen {n : Nat} (frozen : state.store.isGeneralized n = true) :
    later.store.isGeneralized n = true
  low {level n : Nat} (low : state.store.Low level n) : later.store.Low level n
  outer : ∀ other ∈ later.outer, later.store.Low 0 other
  vars : ∀ other ∈ vars, later.store.Low level other

/-- A later state in which a variable is still hidden. -/
structure Spares (n : Nat) (state later : Inference) (vars : List Nat) : Prop where
  hidden : Hidden n vars later
  level_eq : later.store.level n = state.store.level n
  behind {other : Nat} (behind : state.store.Behind (· ≠ n) other) :
    later.store.Behind (· ≠ n) other

structure Guards {α : Type} (level : Nat) (play : List Nat) (state : Inference)
    (outcome : List Moment × Except Stop (α × Inference)) (vars : α → List Nat) : Prop where
  ordered : outcome.1.Pairwise Moment.Lasts
  unlinked {n : Nat} (hidden : Hidden n play state) :
    ∀ moment ∈ outcome.1, moment.store.link? n = none
  advances {value : α} {later : Inference} (run : outcome.2 = .ok (value, later)) :
    Advances level state later (vars value)
  spares {value : α} {later : Inference} (run : outcome.2 = .ok (value, later)) {n : Nat}
    (hidden : Hidden n play state) : Spares n state later (vars value)
  sealed {value : α} {later : Inference} (run : outcome.2 = .ok (value, later)) :
    ∀ moment ∈ outcome.1, moment.pending = false → ∀ n ∈ moment.frozen, Sealed level later n
  marked {value : α} {later : Inference} (run : outcome.2 = .ok (value, later)) {n : Nat}
    (marked : later.store.isGeneralized n = true) :
    state.store.isGeneralized n = true ∨ ∃ moment ∈ outcome.1, n ∈ moment.frozen

section

variable {vars : List Nat}

theorem Hidden.subset (hidden : Hidden n play state) (subset : ∀ other ∈ play', other ∈ play) :
    Hidden n play' state :=
  ⟨hidden.made, hidden.unlinked, fun other mem => hidden.play other (subset other mem), hidden.outer⟩

section

variable (ready : Ready level play state)
include ready

theorem Ready.deeper (le : level ≤ level') : Ready level' play state :=
  ⟨fun other mem => (ready.play other mem).mono le, ready.outer⟩

theorem Ready.after (advances : Advances level' state final vars) : Ready level play final :=
  ⟨fun other mem => advances.low (ready.play other mem), advances.outer⟩

theorem Ready.and (more : ∀ other ∈ play', state.store.Low level other) :
    Ready level (play' ++ play) state :=
  ⟨forall_mem_append.mpr ⟨more, ready.play⟩, ready.outer⟩

theorem Ready.hidden (made : n < state.store.size)
    (unlinked : state.store.link? n = none) (deep : level < state.store.level n) :
    Hidden n play state := by
  have apart {other : Nat} (low : state.store.Low level other) : state.store.Behind (· ≠ n) other := by
    refine low.imp fun _ _ shallow same => ?_
    exact absurd (same ▸ shallow) (Nat.not_le_of_lt deep)
  exact ⟨made, unlinked, fun other mem => apart (ready.play other mem),
    fun other mem => apart ((ready.outer other mem).mono (Nat.zero_le level))⟩

end

theorem Sealed.hidden (frozen : Sealed level state n) (ready : Ready level play state) :
    Hidden n play state :=
  ready.hidden (Store.isGeneralized_lt frozen.frozen) frozen.unlinked frozen.deep

theorem Spares.hidden_append (spares : Spares n state final vars) (hidden : Hidden n play state) :
    Hidden n (vars ++ play) final :=
  ⟨spares.hidden.made, spares.hidden.unlinked, forall_mem_append.mpr ⟨spares.hidden.play,
    fun other mem => spares.behind (hidden.play other mem)⟩, spares.hidden.outer⟩

theorem Sealed.after (frozen : Sealed level state n) (advances : Advances level' state final vars)
    (spares : Spares n state final vars) (le : level' ≤ level) : Sealed level' final n where
  frozen := advances.frozen frozen.frozen
  unlinked := spares.hidden.unlinked
  deep := by
    rw [spares.level_eq]
    exact Nat.lt_of_le_of_lt le frozen.deep

theorem Advances.trans {vars' : List Nat} (first : Advances level' state middle vars)
    (second : Advances level middle final vars') : Advances level state final vars' :=
  ⟨fun before => second.frozen (first.frozen before), fun low => second.low (first.low low), second.outer,
    second.vars⟩

theorem Spares.trans {vars' : List Nat} (first : Spares n state middle vars)
    (second : Spares n middle final vars') : Spares n state final vars' :=
  ⟨second.hidden, second.level_eq.trans first.level_eq, fun behind => second.behind (first.behind behind)⟩

end

namespace Guards

variable {β : Type} {vars : α → List Nat}

theorem pure {value : α} (ready : Ready level play state) (known : ∀ other ∈ vars value, other ∈ play) :
    Guards level play state ((Pure.pure value : RecordM α) state) vars where
  ordered := .nil
  unlinked _ _ mem := nomatch mem
  advances run := by
    cases run
    exact ⟨id, id, ready.outer, fun other mem => ready.play other (known other mem)⟩
  spares run _ hidden := by
    cases run
    exact ⟨hidden.subset known, rfl, id⟩
  sealed _ _ mem := nomatch mem
  marked run _ before := by
    cases run
    exact .inl before

theorem weaken (guards : Guards level play' state outcome vars) (subset : ∀ other ∈ play', other ∈ play) :
    Guards level play state outcome vars :=
  ⟨guards.ordered, fun hidden => guards.unlinked (hidden.subset subset), guards.advances,
    fun run _ hidden => guards.spares run (hidden.subset subset), guards.sealed, guards.marked⟩

theorem pure_of_eq_nil {value : α} (ready : Ready level' play state) (none_in : vars value = []) :
    Guards level play state ((Pure.pure value : RecordM α) state) vars := by
  refine .weaken (.pure ⟨forall_mem_nil _, ready.outer⟩ fun _ mem => ?_) (forall_mem_nil _)
  rw [none_in] at mem
  cases mem

theorem settle {moment : Moment} {moments : List Moment} {outcome : Except Stop (α × Inference)}
    (guards : Guards level play state ({ moment with pending := true } :: moments, outcome) vars)
    (lasts : ∀ later ∈ moments, moment.Lasts later)
    (sealed : ∀ value later, outcome = .ok (value, later) → ∀ n ∈ moment.frozen, Sealed level later n) :
    Guards level play state (moment :: moments, outcome) vars := by
  obtain ⟨-, rest⟩ := pairwise_cons.mp guards.ordered
  refine ⟨pairwise_cons.mpr ⟨lasts, rest⟩, fun hidden => ?_, guards.advances, guards.spares,
    fun run => ?_, fun run _ marked => (guards.marked run marked).imp_right ?_⟩
  · exact forall_mem_cons.mpr (forall_mem_cons.mp (guards.unlinked hidden))
  · exact forall_mem_cons.mpr ⟨fun _ => sealed _ _ run, (forall_mem_cons.mp (guards.sealed run)).2⟩
  · rintro ⟨found, mem, frozen⟩
    rcases mem_cons.mp mem with rfl | mem
    · exact ⟨moment, .head _, frozen⟩
    · exact ⟨found, mem_cons_of_mem _ mem, frozen⟩

theorem fails {before : List Moment}
    (guards : Guards level' play state (before, (.error stop : Except Stop (α × Inference))) vars)
    {vars' : β → List Nat} : Guards level play state (before, .error stop) vars' where
  ordered := guards.ordered
  unlinked := guards.unlinked
  advances run := nomatch run
  spares run := nomatch run
  sealed run := nomatch run
  marked run := nomatch run

theorem bind_keep {rest : α → RecordM β} {vars' : β → List Nat} (le : level ≤ level')
    (first : Guards level' play state (computation state) vars)
    (second : ∀ value later, (computation state).2 = .ok (value, later) →
      Advances level' state later (vars value) →
      ∃ kept, (∀ other ∈ kept, other ∈ vars value ++ play) ∧ Ready level' kept later ∧
        Guards level kept later (rest value later) vars') :
    Guards level play state ((computation >>= rest) state) vars' := by
  rcases run : computation state with ⟨before, stop | ⟨value, middle⟩⟩
  · rw [RecordM.bind_of_error run]
    rw [run] at first
    exact first.fails
  · rw [RecordM.bind_of_ok run]
    rw [run] at first
    have advances := first.advances rfl
    obtain ⟨kept, subset, ready, second⟩ := second value middle (by rw [run]) advances
    have carries {n : Nat} (hidden : Hidden n play state) : Hidden n kept middle :=
      ((first.spares rfl hidden).hidden_append hidden).subset subset
    refine ⟨?_, fun hidden => ?_, fun run => ?_, fun run _ hidden => ?_, fun run => ?_, fun run _ marked => ?_⟩
    · refine pairwise_append.mpr ⟨first.ordered, second.ordered, ?_⟩
      intro earlier before later after settled n frozen
      exact second.unlinked ((first.sealed rfl earlier before settled n frozen).hidden ready) later after
    · exact forall_mem_append.mpr ⟨first.unlinked hidden, second.unlinked (carries hidden)⟩
    · exact advances.trans (second.advances run)
    · exact (first.spares rfl hidden).trans (second.spares run (carries hidden))
    · refine forall_mem_append.mpr ⟨fun moment mem settled n frozen => ?_, fun moment mem =>
        second.sealed run moment mem⟩
      have sealed := first.sealed rfl moment mem settled n frozen
      exact sealed.after (second.advances run) (second.spares run (sealed.hidden ready)) le
    · rcases second.marked run marked with between | ⟨moment, mem, frozen⟩
      · refine (first.marked rfl between).imp_right ?_
        exact fun ⟨moment, mem, frozen⟩ => ⟨moment, mem_append_left _ mem, frozen⟩
      · exact .inr ⟨moment, mem_append_right _ mem, frozen⟩

theorem bind {rest : α → RecordM β} {vars' : β → List Nat} (ready : Ready level play state)
    (first : Guards level play state (computation state) vars)
    (second : ∀ value later, Ready level (vars value ++ play) later →
      Guards level (vars value ++ play) later (rest value later) vars') :
    Guards level play state ((computation >>= rest) state) vars' := by
  refine first.bind_keep (Nat.le_refl level) fun value later _ advances => ?_
  have ready' := (ready.after advances).and advances.vars
  exact ⟨vars value ++ play, fun _ mem => mem, ready', second value later ready'⟩

end Guards

def Inference.Reaches (state : Inference) (play : List Nat) (n : Nat) : Prop :=
  n < state.store.size ∧ ∀ found ∈ (state.store.expand (.var n)).vars,
    ∃ other ∈ play ++ state.outer, found ∈ (state.store.expand (.var other)).vars

section

theorem Hidden.reaches (hidden : Hidden n play state)
    (reaches : ∀ other ∈ play', state.Reaches play other) : Hidden n (play' ++ play) state := by
  have all := forall_mem_append.mpr ⟨hidden.play, hidden.outer⟩
  refine ⟨hidden.made, hidden.unlinked, forall_mem_append.mpr ⟨fun other mem => ?_, hidden.play⟩,
    hidden.outer⟩
  refine ⟨(reaches other mem).1, fun found here => ?_⟩
  obtain ⟨source, there, behind⟩ := (reaches other mem).2 found here
  exact (all source there).2 found behind

theorem Ready.reaches (ready : Ready level play state)
    (reaches : ∀ other ∈ play', state.Reaches play other) : Ready level (play' ++ play) state := by
  have all := forall_mem_append.mpr ⟨ready.play,
    fun other mem => (ready.outer other mem).mono (Nat.zero_le level)⟩
  refine ready.and fun other mem => ⟨(reaches other mem).1, fun found here => ?_⟩
  obtain ⟨source, there, behind⟩ := (reaches other mem).2 found here
  exact (all source there).2 found behind

theorem Guards.of_reaches {vars : α → List Nat} (reaches : ∀ other ∈ play', state.Reaches play other)
    (guards : Guards level (play' ++ play) state outcome vars) : Guards level play state outcome vars :=
  ⟨guards.ordered, fun hidden => guards.unlinked (hidden.reaches reaches), guards.advances,
    fun run _ hidden => guards.spares run (hidden.reaches reaches), guards.sealed, guards.marked⟩

end

structure Context.Plays (ctx : Context) (play : List Nat) : Prop where
  locals : ∀ entry ∈ ctx.locals, ∀ other ∈ entry.2.vars, other ∈ play
  aliases : ∀ type ∈ ctx.aliases, ∀ other ∈ type.vars, other ∈ play

namespace Context.Plays

theorem append (plays : ctx.Plays play) (more : List Nat) : ctx.Plays (more ++ play) :=
  ⟨fun entry mem other here => mem_append_right _ (plays.locals entry mem other here),
    fun type mem other here => mem_append_right _ (plays.aliases type mem other here)⟩

theorem bind (plays : ctx.Plays play) (symbol : Symbol) (known : ∀ other ∈ type.vars, other ∈ play) :
    (ctx.bind symbol type).Plays play :=
  ⟨forall_mem_cons.mpr ⟨known, plays.locals⟩, plays.aliases⟩

end Context.Plays

def boundVars (binders : List (Binder Bound Annotation)) : List Nat :=
  binders.flatMap fun binder => binder.name.type.vars

namespace Record

open RecordM

/-! ### Single steps -/

theorem guards_made {computation : InferM α} {vars : α → List Nat} {value : α} {later : Inference}
    {numbers : List Nat} (ready : Ready level play state) (le : level' ≤ level)
    (run : computation.run state = .ok (value, later))
    (made : later.store = (state.store.freshFor level' numbers).1)
    (known : ∀ other ∈ vars value, other ∈ play ∨ state.store.size ≤ other ∧ other < later.store.size)
    (declared : ∀ other ∈ later.outer, other ∈ state.outer ∨
      level' = 0 ∧ state.store.size ≤ other ∧ other < later.store.size) :
    Guards level play state (quiet computation state) vars := by
  have spec := state.store.freshFor_spec level' numbers
  rw [show (state.store.freshFor level' numbers) = (later.store, _) from Prod.ext made.symm rfl] at spec
  have size_le := spec.grows.keeps.size_le
  have low {limit n : Nat} (low : state.store.Low limit n) : later.store.Low limit n :=
    (low.imp fun _ there shallow => (spec.level_of_lt there).symm ▸ shallow).of_links size_le spec.link?
  have unlinked {n : Nat} (unmade : state.store.size ≤ n) : later.store.link? n = none := by
    by_contra linked
    rw [spec.link?] at linked
    exact absurd (Store.lt_of_linked linked) (Nat.not_lt_of_le unmade)
  have new {n : Nat} (unmade : state.store.size ≤ n) (exists_ : n < later.store.size) :
      later.store.Low level' n := by
    refine Store.behind_of_unlinked exists_ (unlinked unmade) ?_
    rw [made] at exists_ ⊢
    exact Nat.le_of_eq (state.store.freshFor_level level' numbers unmade exists_)
  rw [show quiet computation state = ([], .ok (value, later)) from congrArg (Prod.mk []) run]
  refine ⟨.nil, fun _ _ mem => (nomatch mem), fun run => ?_, fun run n hidden => ?_,
    fun _ _ mem => (nomatch mem), fun run n marked => ?_⟩
  · cases run
    refine ⟨fun before => (spec.isGeneralized _).trans before, low, fun other mem => ?_,
      fun other mem => ?_⟩
    · rcases declared other mem with here | ⟨rfl, unmade, exists_⟩
      · exact low (ready.outer other here)
      · exact new unmade exists_
    · rcases known other mem with here | ⟨unmade, exists_⟩
      · exact low (ready.play other here)
      · exact (new unmade exists_).mono le
  · cases run
    have apart {other : Nat} (unmade : state.store.size ≤ other) (exists_ : other < later.store.size) :
        later.store.Behind (· ≠ n) other :=
      Store.behind_of_unlinked exists_ (unlinked unmade) fun same =>
        absurd hidden.made (Nat.not_lt_of_le (same ▸ unmade))
    refine ⟨⟨Nat.lt_of_lt_of_le hidden.made size_le, (spec.link? n).trans hidden.unlinked,
      fun other mem => ?_, fun other mem => ?_⟩, spec.level_of_lt hidden.made,
      fun behind => behind.of_links size_le spec.link?⟩
    · rcases known other mem with here | ⟨unmade, exists_⟩
      · exact (hidden.play other here).of_links size_le spec.link?
      · exact apart unmade exists_
    · rcases declared other mem with here | ⟨-, unmade, exists_⟩
      · exact (hidden.outer other here).of_links size_le spec.link?
      · exact apart unmade exists_
  · cases run
    exact .inl ((spec.isGeneralized n).symm.trans marked)

theorem fresh_vars (store : Store) (level : Nat) :
    ∀ other ∈ (Ty.var store.size).vars, store.size ≤ other ∧ other < (store.fresh level).1.size := by
  intro other mem
  obtain rfl : other = store.size := by simpa using mem
  exact ⟨Nat.le_refl _, (store.size_fresh level).symm ▸ Nat.lt_succ_self _⟩

section

variable (ready : Ready level play state)
include ready

theorem guards_fresh : Guards level play state (quiet (Infer.fresh level) state) Ty.vars :=
  @guards_made level level play state _ (Infer.fresh level) _ _ _ [0] ready (Nat.le_refl level) rfl rfl
    (fun other mem => .inr (fresh_vars state.store level other mem)) fun _ => .inl

theorem guards_freshEmpty : Guards level play state (quiet (Infer.freshEmpty level) state) Ty.vars :=
  @guards_made level level play state _ (Infer.freshEmpty level) _ _ _ [0] ready (Nat.le_refl level) rfl rfl
    (fun other mem => .inr (fresh_vars state.store level other mem)) fun _ => .inl

theorem guards_instantiate (name : String) {scheme : Ty}
    (known : ∀ other ∈ scheme.vars, other ∈ play) :
    Guards level play state (quiet (Infer.instantiate level name scheme) state)
      (fun made => made.type.vars) := by
  have made := state.store.instance_instantiate level scheme
  refine guards_made ready (Nat.le_refl level) rfl rfl (fun other mem => ?_) fun _ => .inl
  change other ∈ (state.store.instantiate level scheme).2.1.vars at mem
  rw [made.type_eq, Ty.substGenerics, Ty.mem_vars_subst] at mem
  obtain ⟨source, there, mem⟩ | ⟨source, there, mem⟩ := mem
  · obtain rfl : other = source := by simpa using mem
    exact .inl (known other there)
  · obtain ⟨fresh, found, unmade, mono⟩ := made.lookup there
    rw [found] at mem
    obtain rfl : other = fresh := by simpa using mem
    exact .inr ⟨unmade, mono.covers other (by simp)⟩

theorem guards_unify (left_known : ∀ other ∈ left.vars, other ∈ play)
    (right_known : ∀ other ∈ right.vars, other ∈ play) (span : Span) :
    Guards level play state (unify left right span state) (fun _ => []) := by
  have admits {allowed : Nat → Prop} (behind : ∀ other ∈ play, state.store.Behind allowed other) :
      state.store.Admits allowed (fun _ => True) left ∧ state.store.Admits allowed (fun _ => True) right :=
    ⟨.of_behind fun other mem => behind other (left_known other mem),
      .of_behind fun other mem => behind other (right_known other mem)⟩
  have whole := admits fun other mem => (ready.play other mem).imp fun _ _ _ => trivial
  have unified := (Store.attempt_unify whole.1 whole.2).unified
  refine ⟨pairwise_singleton _ _, fun hidden => forall_mem_singleton.mpr ?_, fun run => ?_,
    fun run n hidden => ?_, fun _ => forall_mem_singleton.mpr fun _ _ mem => (nomatch mem),
    fun run n marked => ?_⟩
  · have apart := admits hidden.play
    exact Store.unlinked_unify apart.1 apart.2 hidden.unlinked
  · obtain ⟨-, rfl⟩ := Infer.unify_run run
    exact ⟨fun before => (unified.isGeneralized _).trans before, .unified unified,
      fun other mem => .unified unified (ready.outer other mem), fun _ mem => nomatch mem⟩
  · obtain ⟨success, rfl⟩ := Infer.unify_run run
    have apart := admits hidden.play
    have kept := (Store.attempt_unify apart.1 apart.2).unified
    exact ⟨⟨kept.size_eq ▸ hidden.made, Store.unlinked_unify apart.1 apart.2 hidden.unlinked,
      fun _ mem => (nomatch mem), fun other mem => .unified kept (hidden.outer other mem)⟩,
      Store.level_unify apart.1 apart.2 hidden.unlinked success, .unified kept⟩
  · obtain ⟨-, rfl⟩ := Infer.unify_run run
    exact .inl ((unified.isGeneralized n).symm.trans marked)

end

theorem guards_generalize {within : Nat} (ready : Ready level' play state)
    (known : ∀ other ∈ type.vars, other ∈ play) (le : level ≤ within) {pending : Bool}
    (settled : pending = false → within ≤ level) :
    Guards within play state (generalize level type pending state) Ty.vars := by
  have same := state.store.sameLinks_generalize level type
  have levels := state.store.level_generalize level type
  have size_le := Nat.le_of_eq same.1.symm
  have kept {n : Nat} (frozen : state.store.isGeneralized n = true) :
      (state.store.generalize level type).1.isGeneralized n = true :=
    Store.isGeneralized_foldl_freeze (.inl frozen)
  have low {limit n : Nat} (low : state.store.Low limit n) :
      (state.store.generalize level type).1.Low limit n :=
    (low.imp fun found _ shallow => (levels found).symm ▸ shallow).of_links size_le same.2
  have covers : state.store.Covers type := fun other mem => (ready.play other (known other mem)).1
  refine ⟨pairwise_singleton _ _, fun hidden => forall_mem_singleton.mpr ?_, fun run => ?_,
    fun run n hidden => ?_, fun run => forall_mem_singleton.mpr fun done n mem => ?_,
    fun run n marked => ?_⟩
  · exact (same.2 _).trans hidden.unlinked
  · cases run
    refine ⟨kept, low, fun other mem => low (ready.outer other mem), fun other mem => ?_⟩
    obtain ⟨there, shallow⟩ := Store.mem_vars_generalize.mp mem
    refine Store.behind_of_unlinked (Nat.lt_of_lt_of_le (covers.expand other there) size_le)
      ((same.2 other).trans (Store.link?_of_mem_expand there)) ?_
    exact Nat.le_trans (Nat.le_trans (Nat.le_of_eq (levels other)) shallow) le
  · cases run
    refine ⟨⟨Nat.lt_of_lt_of_le hidden.made size_le, (same.2 n).trans hidden.unlinked,
      fun other mem => ?_, fun other mem => (hidden.outer other mem).of_links size_le same.2⟩,
      levels n, fun behind => behind.of_links size_le same.2⟩
    obtain ⟨there, -⟩ := Store.mem_vars_generalize.mp mem
    refine Store.behind_of_unlinked (Nat.lt_of_lt_of_le (covers.expand other there) size_le)
      ((same.2 other).trans (Store.link?_of_mem_expand there)) ?_
    obtain ⟨source, above, there⟩ := Store.mem_vars_expand.mp there
    exact (hidden.play source (known source above)).2 other there
  · cases run
    obtain ⟨there, deep⟩ := mem_filter.mp mem
    refine ⟨Store.isGeneralized_foldl_freeze (.inr ⟨mem, covers.expand n there⟩),
      (same.2 n).trans (Store.link?_of_mem_expand there), ?_⟩
    calc
      within ≤ level := settled done
      _ < state.store.level n := of_decide_eq_true deep
      _ = _ := (levels n).symm
  · cases run
    by_cases mem : n ∈ (state.store.expand type).vars.filter fun n => level < state.store.level n
    · exact .inr ⟨_, .head _, mem⟩
    · exact .inl ((Store.isGeneralized_foldl_freeze_of_not_mem mem).symm.trans marked)

theorem mem_outer_insert {externals : NameMap External} {name : String} {external : External}
    {empties : List Nat} (mem : n ∈ Inference.outer ⟨store, externals.insert name external, empties⟩) :
    n ∈ external.type.vars ∨ n ∈ Inference.outer ⟨store, externals, empties⟩ := by
  obtain ⟨entry, there, here⟩ := mem_flatMap.mp mem
  rcases mem_cons.mp there with rfl | there
  · exact .inl here
  · exact .inr (mem_flatMap.mpr ⟨entry, (mem_filter.mp there).1, here⟩)

theorem guards_externalType (ready : Ready level play state) (name : String) :
    Guards level play state (quiet (Infer.externalType name) state) Ty.vars := by
  cases found : state.externals.find? name with
  | some external =>
    have run : (Infer.externalType name).run state = .ok (external.type, state) := by
      simp only [Infer.externalType, StateT.run_bind, StateT.run_get, LawfulMonad.pure_bind, found]
      rfl
    have reaches : ∀ other ∈ external.type.vars, state.Reaches play other := by
      intro other mem
      have outer : other ∈ state.outer :=
        mem_flatMap.mpr ⟨_, NameMap.mem_of_find? found, mem⟩
      exact ⟨(ready.outer other outer).1, fun found here => ⟨other, mem_append_right _ outer, here⟩⟩
    refine .of_reaches reaches ?_
    exact @guards_made level level _ state _ (Infer.externalType name) _ _ _ [] (ready.reaches reaches)
      (Nat.le_refl level) run rfl (fun other mem => .inl (mem_append_left _ mem)) fun _ => .inl
  | none =>
    have run : (Infer.externalType name).run state = .ok (.var state.store.size,
        { state with
          store := (state.store.fresh 0).1
          externals := state.externals.insert name ⟨.var state.store.size, name⟩ }) := by
      simp only [Infer.externalType, StateT.run_bind, StateT.run_get, LawfulMonad.pure_bind, found]
      rfl
    refine @guards_made level 0 play state _ (Infer.externalType name) _ _ _ [0] ready (Nat.zero_le level) run
      rfl (fun other mem => .inr (fresh_vars state.store 0 other mem)) fun other mem => ?_
    exact (mem_outer_insert mem).symm.imp_right fun here => ⟨rfl, fresh_vars state.store 0 other here⟩

/-! ### Annotations and uses -/

theorem guards_stop {vars : α → List Nat} : Guards level play state (quiet (throw stop) state) vars :=
  ⟨.nil, fun _ _ mem => (nomatch mem), fun run => (nomatch run), fun run => (nomatch run),
    fun run => (nomatch run), fun run => (nomatch run)⟩

section

variable {aliases : List Ty}

mutual
theorem guards_annotated (hint : Annotation) {play : List Nat} {state : Inference}
    (ready : Ready level play state) (known : ∀ type ∈ aliases, ∀ other ∈ type.vars, other ∈ play) :
    Guards level play state (quiet (Infer.annotated aliases level hint) state) Ty.vars := by
  match hint with
  | .hole _ => exact guards_fresh ready
  | .prim _ _ => exact .pure ready fun _ mem => nomatch mem
  | .synonym _ index =>
    rw [Infer.annotated]
    split
    · next type found => exact .pure ready (known type (mem_of_getElem? found))
    · exact guards_stop
  | .app _ _ element =>
    rw [Infer.annotated, quiet_bind]
    refine .bind ready (guards_annotated element ready known) fun _ _ ready => .pure ready ?_
    exact fun _ mem => mem_append_left _ mem
  | .tuple _ elements =>
    rw [Infer.annotated, quiet_bind]
    refine .bind ready (guards_annotatedAll elements ready known) fun _ _ ready => .pure ready ?_
    exact fun _ mem => mem_append_left _ (Ty.vars_tuple _ ▸ mem)
  | .function _ params result =>
    rw [Infer.annotated, quiet_bind]
    refine .bind ready (guards_annotatedAll params ready known) fun params _ ready => ?_
    rw [quiet_bind]
    refine .bind ready (guards_annotated result ready fun type mem other here =>
      mem_append_right _ (known type mem other here)) fun _ _ ready => .pure ready ?_
    simp only [Ty.vars_function, mem_append]
    grind
theorem guards_annotatedAll (hints : List Annotation) {play : List Nat} {state : Inference}
    (ready : Ready level play state) (known : ∀ type ∈ aliases, ∀ other ∈ type.vars, other ∈ play) :
    Guards level play state (quiet (Infer.annotatedAll aliases level hints) state)
      (fun types => types.flatMap Ty.vars) := by
  match hints with
  | [] => exact .pure ready fun _ mem => nomatch mem
  | hint :: hints =>
    rw [Infer.annotatedAll, quiet_bind]
    refine .bind ready (guards_annotated hint ready known) fun type _ ready => ?_
    rw [quiet_bind]
    refine .bind ready (guards_annotatedAll hints ready fun type mem other here =>
      mem_append_right _ (known type mem other here)) fun _ _ ready => .pure ready ?_
    simp only [flatMap_cons, mem_append]
    grind
end

end

theorem guards_freshAll (ready : Ready level play state) (count : Nat) :
    Guards level play state (quiet (Infer.freshAll level count) state) (fun types => types.flatMap Ty.vars) := by
  induction count generalizing play state with
  | zero => exact .pure ready fun _ mem => nomatch mem
  | succ _ ih =>
    rw [Infer.freshAll, quiet_bind]
    refine .bind ready (guards_fresh ready) fun _ _ ready => ?_
    rw [quiet_bind]
    refine .bind ready (ih ready) fun _ _ ready => .pure ready ?_
    simp only [flatMap_cons, mem_append]
    grind

theorem guards_targetType (ready : Ready level play state) (plays : ctx.Plays play) (target : Target) :
    Guards level play state (quiet (Infer.targetType ctx target) state) Ty.vars := by
  cases target with
  | bound _ =>
    rw [Infer.targetType]
    split
    · next type found => exact .pure ready (plays.locals _ (mem_of_lookup found))
    · exact guards_stop
  | external name => exact guards_externalType ready name

theorem guards_use (ready : Ready level play state) (plays : ctx.Plays play) (ref : Reference) :
    Guards level play state (quiet (Infer.use ctx level ref) state) (fun found => found.1.vars) := by
  rw [Infer.use, quiet_bind]
  refine .bind ready (guards_targetType ready plays ref.target) fun type middle ready => ?_
  have reaches : ∀ other ∈ (middle.store.resolve type).vars, middle.Reaches (type.vars ++ play) other := by
    have admits : middle.store.Admits (fun found => found ∈ (middle.store.expand type).vars)
        (fun _ => True) type :=
      ⟨fun other mem => (ready.play other (mem_append_left _ mem)).1, fun _ mem => mem,
        fun _ _ => trivial⟩
    intro other mem
    refine ⟨admits.resolve.covers other mem, fun found here => ?_⟩
    obtain ⟨source, there, here⟩ := Store.mem_vars_expand.mp
      (admits.resolve.vars found (Store.mem_vars_expand.mpr ⟨other, mem, here⟩))
    exact ⟨source, mem_append_left _ (mem_append_left _ there), here⟩
  have ready := ready.reaches reaches
  refine .of_reaches reaches ?_
  change Guards level _ middle (quiet (if (middle.store.resolve type).isPolymorphic then _ else _) middle) _
  split
  · rw [quiet_bind]
    refine .bind ready (guards_instantiate ready _ fun other mem => mem_append_left _ mem)
      fun _ _ ready => .pure ready ?_
    exact fun other mem => mem_append_left _ mem
  · exact .pure ready fun other mem => mem_append_left _ mem

end Record

end MiddleEnd
