import MiddleEnd.Proofs.Typing.Patterns
import MiddleEnd.Proofs.Typing.Sites

/-! Placeholders stay where they are made. At a level, whatever is deeper and frozen in the type of a
place was frozen by a binding around the place; inference keeps this at each step, and leaving a binding
adds what the binding itself has frozen. Excepted are variables that were frozen too early. -/

namespace MiddleEnd

open List

variable {later state middle : Inference} {type : Ty} {α β : Type} {computation : RecordM α}
  {rest : α → RecordM β} {result : β} {value : α} {level level' : Nat} {play : List Nat}
  {fact : α → Inference → Prop} {vars : α → List Nat} {fact' : β → Inference → Prop}
  {leak barred : Nat → Prop} {known : List Site} {outcome : List Moment × Except Stop (α × Inference)}
  {site : Site} {ctx : Context} {vars' : β → List Nat}

namespace Store

variable {store later : Store}

def Plain (store : Store) : Prop := ∀ n, (store.expand (.var n)).generics = []

theorem Plain.expand (plain : store.Plain) (without : type.generics = []) :
    (store.expand type).generics = [] :=
  generics_expand_eq_nil.mpr ⟨fun n _ => plain n, without⟩

theorem Plain.after (plain : store.Plain) (keeps : store.Keeps later)
    (unlinked : ∀ n, store.link? n = none → (later.expand (.var n)).generics = []) :
    later.Plain := by
  intro n
  rw [← keeps.expand_expand, generics_expand_eq_nil]
  exact ⟨fun between there => unlinked between (link?_of_mem_expand there), plain n⟩

theorem Plain.of_links (plain : store.Plain) (keeps : store.Keeps later)
    (links : ∀ n, later.link? n = store.link? n) : later.Plain := by
  refine plain.after keeps fun n unlinked => ?_
  rw [expand_of_unlinked ((links n).trans unlinked)]
  rfl

theorem Plain.unify (plain : store.Plain) {left right : Ty} (left_covers : store.Covers left)
    (right_covers : store.Covers right) (left_plain : left.generics = [])
    (right_plain : right.generics = []) :
    store.Keeps (store.unify left right).1 ∧ (store.unify left right).1.Plain := by
  have admits {type : Ty} (covers : store.Covers type) (without : type.generics = []) :
      store.Admits (fun _ => True) (fun _ => False) type :=
    ⟨covers, fun _ _ => trivial, eq_nil_iff_forall_not_mem.mp (plain.expand without)⟩
  have unified := (attempt_unify (admits left_covers left_plain) (admits right_covers right_plain)).unified
  refine ⟨unified.keeps, plain.after unified.keeps fun n unlinked => ?_⟩
  by_cases linked : (store.unify left right).1.link? n = none
  · rw [expand_of_unlinked linked]
    rfl
  · have made := unified.size_eq ▸ lt_of_linked linked
    exact eq_nil_iff_forall_not_mem.mpr (unified.admits (admits_of_unlinked unlinked trivial made)).generics

end Store

namespace Inference

structure Plain (state : Inference) : Prop where
  store : state.store.Plain
  externals : ∀ entry ∈ state.externals.entries, entry.2.type.generics = []

structure Leads (state later : Inference) : Prop where
  keeps : state.store.Keeps later.store
  plain (plain : state.Plain) : later.Plain

theorem Leads.refl (state : Inference) : state.Leads state := ⟨.refl _, id⟩

theorem Leads.trans {first second third : Inference} (left : first.Leads second) (right : second.Leads third) :
    first.Leads third :=
  ⟨left.keeps.trans right.keeps, fun plain => right.plain (left.plain plain)⟩

end Inference

namespace RecordM

variable {final : Inference}

theorem exists_of_bind (run : ((computation >>= rest) state).2 = .ok (result, final)) :
    ∃ value middle, (computation state).2 = .ok (value, middle) ∧ (rest value middle).2 = .ok (result, final) := by
  rcases first : computation state with ⟨before, stop | ⟨value, middle⟩⟩
  · rw [bind_of_error first] at run
    cases run
  · rw [bind_of_ok first] at run
    exact ⟨value, middle, rfl, run⟩

theorem moments_bind (run : (computation state).2 = .ok (value, middle)) :
    ((computation >>= rest) state).1 = (computation state).1 ++ (rest value middle).1 := by
  rw [bind_of_ok (Prod.ext rfl run)]

end RecordM

structure Calm {α : Type} (play : List Nat) (state : Inference)
    (outcome : List Moment × Except Stop (α × Inference)) (fact : α → Inference → Prop) : Prop where
  spared {value : α} {later : Inference} (run : outcome.2 = .ok (value, later)) {n : Nat}
    (hidden : Hidden n play state) : ∀ moment ∈ outcome.1, n ∉ moment.frozen
  leads {value : α} {later : Inference} (run : outcome.2 = .ok (value, later)) : state.Leads later
  fact {value : α} {later : Inference} (run : outcome.2 = .ok (value, later)) : fact value later

namespace Calm

theorem pure (holds : fact value state) :
    Calm play state ((Pure.pure value : RecordM α) state) fact where
  spared _ _ _ _ mem := nomatch mem
  leads run := by
    cases run
    exact .refl state
  fact run := by
    cases run
    exact holds

theorem bind (guards : Guards level play state (computation state) vars)
    (first : Calm play state (computation state) fact)
    (second : ∀ value later, (computation state).2 = .ok (value, later) → fact value later →
      Calm (vars value ++ play) later (rest value later) fact') :
    Calm play state ((computation >>= rest) state) fact' := by
  refine ⟨fun run _ hidden => ?_, fun run => ?_, fun run => ?_⟩ <;>
    obtain ⟨value, middle, first_run, run⟩ := RecordM.exists_of_bind run <;>
    have second := second value middle first_run (first.fact first_run)
  · rw [RecordM.moments_bind first_run]
    have hidden' := (guards.spares first_run hidden).hidden_append hidden
    exact forall_mem_append.mpr ⟨first.spared first_run hidden, second.spared run hidden'⟩
  · exact (first.leads first_run).trans (second.leads run)
  · exact second.fact run

theorem quiet {computation : InferM α}
    (meets : Meets (fun _ => True) computation state fun value later => state.Leads later ∧ fact value later) :
    Calm play state (RecordM.quiet computation state) fact where
  spared _ _ _ _ mem := nomatch mem
  leads run := (meets.of_run run).1
  fact run := (meets.of_run run).2

end Calm

/-! ### Places -/

structure Site.Kept (leak barred : Nat → Prop) (level : Nat) (state : Inference) (site : Site) : Prop where
  covers : state.store.Covers site.type
  plain : site.type.generics = []
  apart : ∀ n ∈ (state.store.expand site.type).vars, ¬barred n
  /-- What is frozen and deeper than the level was frozen around the place. -/
  frozen : ∀ n ∈ (state.store.expand site.type).vars, level < state.store.level n →
    state.store.isGeneralized n = true →
      leak n ∨ ∃ bound ∈ site.around, n ∈ bound.type.generics
  /-- A record is about a scheme whose placeholders are not behind its variables. -/
  record : ∀ made ∈ site.record, made.scheme.generics ≠ [] ∧ ∀ n ∈ made.scheme.generics,
    state.store.isGeneralized n = true ∧
      (leak n ∨ ∀ other ∈ made.scheme.vars, state.store.Behind (· ≠ n) other)

def Clean (leak : Nat → Prop) (play : List Nat) (state : Inference) : Prop :=
  ∀ n, state.store.isGeneralized n = true → leak n ∨ Hidden n play state

structure Confined (leak barred : Nat → Prop) (level : Nat) (play : List Nat) (known : List Site)
    (state : Inference) : Prop where
  clean : Clean leak play state
  hidden : ∀ n, barred n → Hidden n play state
  kept : ∀ site ∈ known, site.Kept leak barred level state

def Leaks (leak : Nat → Prop) (moments : List Moment) : Prop :=
  ∀ moment ∈ moments, moment.pending = true → ∀ n ∈ moment.frozen, leak n

section

variable {n : Nat}

theorem Clean.after (clean : Clean leak play state) (guards : Guards level play state outcome vars)
    (run : outcome.2 = .ok (value, later)) (leaks : Leaks leak outcome.1)
    (ready : Ready level (vars value ++ play) later) : Clean leak (vars value ++ play) later := by
  intro n marked
  rcases guards.marked run marked with before | ⟨moment, mem, frozen⟩
  · exact (clean n before).imp_right fun hidden => (guards.spares run hidden).hidden_append hidden
  · cases settled : moment.pending with
    | true => exact .inl (leaks moment mem settled n frozen)
    | false => exact .inr ((guards.sealed run moment mem settled n frozen).hidden ready)

theorem Site.Kept.after (kept : site.Kept leak barred level state) (ready : Ready level play state)
    (confined : Confined leak barred level play known state)
    (guards : Guards level' play state outcome vars) (calm : Calm play state outcome fact)
    (run : outcome.2 = .ok (value, later)) : site.Kept leak barred level later := by
  have keeps := (calm.leads run).keeps
  have advances := guards.advances run
  refine ⟨keeps.covers kept.covers, kept.plain, fun n mem bars => ?_,
    fun n mem deep marked => ?_, fun made taken => ?_⟩
  · obtain ⟨between, there, mem⟩ := keeps.mem_vars_expand.mp mem
    have behind : state.store.Behind (· ≠ n) between :=
      Store.behind_of_unlinked (kept.covers.expand between there) (Store.link?_of_mem_expand there)
        fun same => kept.apart between there (same ▸ bars)
    exact ((guards.spares run (confined.hidden n bars)).behind behind).2 n mem rfl
  · obtain ⟨between, there, mem⟩ := keeps.mem_vars_expand.mp mem
    have made := kept.covers.expand between there
    have unlinked := Store.link?_of_mem_expand there
    by_cases deep' : level < state.store.level between
    · have hidden := ready.hidden made unlinked deep'
      have spares := guards.spares run hidden
      rw [Store.expand_of_unlinked spares.hidden.unlinked] at mem
      obtain rfl := mem_singleton.mp mem
      refine kept.frozen n there deep' ((guards.marked run marked).resolve_right ?_)
      exact fun ⟨moment, mem, frozen⟩ => calm.spared run hidden moment mem frozen
    · have low : state.store.Low level between :=
        Store.behind_of_unlinked made unlinked (Nat.le_of_not_lt deep')
      exact absurd ((advances.low low).2 n mem) (Nat.not_le_of_lt deep)
  · obtain ⟨some_in, each⟩ := kept.record made taken
    refine ⟨some_in, fun n mem => ?_⟩
    obtain ⟨marked, behind⟩ := each n mem
    refine ⟨advances.frozen marked, ?_⟩
    rcases confined.clean n marked with leaked | hidden
    · exact .inl leaked
    · exact behind.imp_right fun behind other mem => (guards.spares run hidden).behind (behind other mem)

theorem Confined.after (confined : Confined leak barred level play known state) (ready : Ready level play state)
    (guards : Guards level play state outcome vars) (calm : Calm play state outcome fact)
    (run : outcome.2 = .ok (value, later)) (leaks : Leaks leak outcome.1) :
    Confined leak barred level (vars value ++ play) known later := by
  have advances := guards.advances run
  exact ⟨confined.clean.after guards run leaks ((ready.after advances).and advances.vars),
    fun n bars => (guards.spares run (confined.hidden n bars)).hidden_append (confined.hidden n bars),
    fun site mem => (confined.kept site mem).after ready confined guards calm run⟩

structure Site.Opens (play : List Nat) (site : Site) : Prop where
  plain : site.type.generics = []
  vars : ∀ other ∈ site.type.vars, other ∈ play
  record : site.record = none

theorem Site.Opens.kept (opens : site.Opens play) (ready : Ready level play state)
    (hidden : ∀ n, barred n → Hidden n play state) : site.Kept leak barred level state := by
  refine ⟨fun other mem => (ready.play other (opens.vars other mem)).1, opens.plain,
    fun n mem bars => ?_, fun n mem deep => ?_, fun _ taken => ?_⟩
  · obtain ⟨other, there, mem⟩ := Store.mem_vars_expand.mp mem
    exact ((hidden n bars).play other (opens.vars other there)).2 n mem rfl
  · obtain ⟨other, there, mem⟩ := Store.mem_vars_expand.mp mem
    exact absurd ((ready.play other (opens.vars other there)).2 n mem) (Nat.not_le_of_lt deep)
  · rw [opens.record] at taken
    cases taken

end

/-! ### Contexts -/

structure Held (ctx : Context) (level : Nat) (play : List Nat) (state : Inference) : Prop where
  ready : Ready level play state
  plain : state.Plain
  plays : ctx.Plays play
  aliases : ∀ type ∈ ctx.aliases, type.generics = []
  frozen : ∀ entry ∈ ctx.locals, ∀ n ∈ entry.2.generics, state.store.isGeneralized n = true

namespace Held

variable {vars : List Nat}

section

variable (held : Held ctx level play state)
include held

theorem deeper : Held ctx (level + 1) play state :=
  { held with ready := held.ready.deeper (Nat.le_succ level) }

theorem after (advances : Advances level' state later vars)
    (leads : state.Leads later) : Held ctx level play later :=
  { held with
    ready := held.ready.after advances
    plain := leads.plain held.plain
    frozen := fun entry mem n here => advances.frozen (held.frozen entry mem n here) }

theorem and (more : ∀ other ∈ vars, state.store.Low level other) :
    Held ctx level (vars ++ play) state :=
  { held with
    ready := held.ready.and more
    plays := held.plays.append vars }

theorem bind (symbol : Symbol) (known : ∀ other ∈ type.vars, other ∈ play)
    (frozen : ∀ n ∈ type.generics, state.store.isGeneralized n = true) :
    Held (ctx.bind symbol type) level play state :=
  { held with
    plays := held.plays.bind symbol known
    frozen := forall_mem_cons.mpr ⟨frozen, held.frozen⟩ }

theorem bindAll (binders : List (Binder Bound Annotation))
    (known : ∀ other ∈ boundVars binders, other ∈ play)
    (frozen : ∀ binder ∈ binders, ∀ n ∈ binder.name.type.generics, state.store.isGeneralized n = true) :
    Held (ctx.bindAll binders) level play state := by
  induction binders generalizing ctx with
  | nil => exact held
  | cons _ _ ih =>
    rw [boundVars, flatMap_cons, forall_mem_append] at known
    obtain ⟨first, rest⟩ := forall_mem_cons.mp frozen
    exact ih (held.bind _ known.1 first) known.2 rest

end

end Held

/-! ### Runs -/

structure Retains {α : Type} (leak : Nat → Prop) (level : Nat) (play : List Nat) (known : List Site)
    (state : Inference) (outcome : List Moment × Except Stop (α × Inference)) (vars : α → List Nat)
    (fact : α → Inference → Prop) (sites : α → List Site) : Prop where
  guards : Guards level play state outcome vars
  calm : Calm play state outcome fact
  kept {barred : Nat → Prop} {value : α} {later : Inference} (run : outcome.2 = .ok (value, later))
    (leaks : Leaks leak outcome.1) (confined : Confined leak barred level play known state) :
    ∀ site ∈ sites value, site.Kept leak barred level later

structure Freezes (moments : List Moment) (binders : List Bound) (later : Inference) : Prop where
  marked : ∀ bound ∈ binders, ∀ n ∈ bound.type.generics, later.store.isGeneralized n = true
  frozen : ∀ moment ∈ moments, ∀ n ∈ moment.frozen, ∃ bound ∈ binders, n ∈ bound.type.generics

structure Closing {α : Type} (level : Nat) (play : List Nat) (state : Inference)
    (outcome : List Moment × Except Stop (α × Inference)) (vars : α → List Nat)
    (binders : α → List Bound) : Prop where
  guards : Guards level play state outcome vars
  calm : Calm play state outcome fun value later => Freezes outcome.1 (binders value) later

section

variable {sites : α → List Site}

theorem Retains.of_calm (guards : Guards level play state outcome vars)
    (calm : Calm play state outcome fact) :
    Retains leak level play known state outcome vars fact (fun _ => []) :=
  ⟨guards, calm, fun _ _ _ _ mem => nomatch mem⟩

theorem Retains.pure (held : Held ctx level play state)
    (vars_known : ∀ other ∈ vars value, other ∈ play) (holds : fact value state)
    (here : ∀ site ∈ sites value, site.Opens play ∨ site ∈ known) :
    Retains leak level play known state ((Pure.pure value : RecordM α) state) vars fact sites where
  guards := .pure held.ready vars_known
  calm := .pure holds
  kept run _ confined site mem := by
    cases run
    rcases here site mem with opens | before
    · exact opens.kept held.ready confined.hidden
    · exact confined.kept site before

theorem Retains.bind {sites' : β → List Site} (held : Held ctx level play state)
    (first : Retains leak level play known state (computation state) vars fact sites)
    (second : ∀ value later, Held ctx level (vars value ++ play) later → fact value later →
      Retains leak level (vars value ++ play) (sites value ++ known) later (rest value later) vars' fact' sites') :
    Retains leak level play known state ((computation >>= rest) state) vars' fact' sites' := by
  have onward {value : α} {later : Inference} (run : (computation state).2 = .ok (value, later)) :=
    have advances := first.guards.advances run
    second value later ((held.after advances (first.calm.leads run)).and advances.vars) (first.calm.fact run)
  refine ⟨first.guards.bind_keep (Nat.le_refl level) fun value later run advances => ?_,
    .bind first.guards first.calm fun value later run _ => (onward run).calm, ?_⟩
  · exact ⟨_, fun _ mem => mem, (held.ready.after advances).and advances.vars, (onward run).guards⟩
  · intro barred result final run leaks confined site mem
    obtain ⟨value, _, first_run, run⟩ := RecordM.exists_of_bind run
    rw [RecordM.moments_bind first_run] at leaks
    obtain ⟨first_leaks, rest_leaks⟩ := forall_mem_append.mp leaks
    have after := confined.after held.ready first.guards first.calm first_run first_leaks
    refine (onward first_run).kept run rest_leaks ⟨after.clean, after.hidden, ?_⟩ site mem
    exact forall_mem_append.mpr ⟨first.kept first_run first_leaks confined, after.kept⟩

section

variable {binders : β → List Bound}

theorem Site.Kept.leave {inner : List Moment × Except Stop (α × Inference)} {inside : List Nat}
    {closing : List Moment × Except Stop (β × Inference)}
    (kept : site.Kept leak (Hidden · play state) (level + 1) later)
    (confined : Confined leak barred level play known state)
    (inner_guards : Guards (level + 1) play state inner vars)
    (inner_run : inner.2 = .ok (value, middle)) (leaks : Leaks leak inner.1)
    (ready : Ready (level + 1) inside middle)
    (closes : Closing level inside middle closing vars' binders) (run : closing.2 = .ok (result, later)) :
    (site.inside (binders result)).Kept leak barred level later := by
  refine ⟨kept.covers, kept.plain, fun n mem bars => ?_, fun n mem deep marked => ?_, kept.record⟩
  · exact kept.apart n mem (confined.hidden n bars)
  · by_cases deeper : level + 1 < later.store.level n
    · refine (kept.frozen n mem deeper marked).imp_right fun ⟨bound, around, frozen⟩ => ?_
      exact ⟨bound, mem_append_right _ around, frozen⟩
    · rcases closes.guards.marked run marked with before | ⟨moment, made, frozen⟩
      · left
        rcases inner_guards.marked inner_run before with start | ⟨moment, made, frozen⟩
        · exact (confined.clean n start).resolve_right (kept.apart n mem)
        · cases settled : moment.pending with
          | true => exact leaks moment made settled n frozen
          | false =>
            have sealed := inner_guards.sealed inner_run moment made settled n frozen
            have same := (closes.guards.spares run (sealed.hidden ready)).level_eq
            exact absurd (same ▸ sealed.deep) deeper
      · obtain ⟨bound, there, frozen⟩ := (closes.calm.fact run).frozen moment made n frozen
        exact .inr ⟨bound, mem_append_left _ there, frozen⟩

theorem Retains.leave {closing : α → RecordM β} (held : Held ctx level play state)
    (inner : Retains leak (level + 1) play [] state (computation state) vars fact sites)
    (closes : ∀ value middle, Held ctx (level + 1) (vars value ++ play) middle → fact value middle →
      Closing level (vars value ++ play) middle (closing value middle) vars' binders) :
    Retains leak level play known state
      ((computation >>= fun value => closing value >>= fun result => Pure.pure (value, result)) state)
      (fun ended => vars' ended.2)
      (fun ended later => ∀ bound ∈ binders ended.2, ∀ n ∈ bound.type.generics,
        later.store.isGeneralized n = true)
      (fun ended => (sites ended.1).map (.inside (binders ended.2))) := by
  have ends {value : α} {middle : Inference} (run : (computation state).2 = .ok (value, middle)) :=
    have advances := inner.guards.advances run
    have inside := (held.deeper.after advances (inner.calm.leads run)).and advances.vars
    And.intro inside.ready (closes value middle inside (inner.calm.fact run))
  refine ⟨inner.guards.bind_keep (Nat.le_succ level) fun value middle run _ => ?_,
    .bind inner.guards inner.calm fun value middle run _ => ?_, ?_⟩
  · refine ⟨_, fun _ mem => mem, (ends run).1, ?_⟩
    refine (ends run).2.guards.bind_keep (Nat.le_refl level) fun result later _ advances => ?_
    have ready : Ready level (vars' result) later := ⟨advances.vars, advances.outer⟩
    exact ⟨_, fun _ mem => mem_append_left _ mem, ready, .pure ready fun _ mem => mem⟩
  · exact .bind (ends run).2.guards (ends run).2.calm fun result later _ freezes => .pure freezes.marked
  · intro barred ended final run leaks confined site mem
    obtain ⟨value, middle, inner_run, run⟩ := RecordM.exists_of_bind run
    rw [RecordM.moments_bind inner_run] at leaks
    obtain ⟨inner_leaks, -⟩ := forall_mem_append.mp leaks
    obtain ⟨result, later, run, packed⟩ := RecordM.exists_of_bind run
    cases packed
    obtain ⟨place, there, rfl⟩ := mem_map.mp mem
    obtain ⟨ready, ends⟩ := ends inner_run
    -- Inside the binding, everything that was hidden before it is barred.
    have start : Confined leak (Hidden · play state) (level + 1) play [] state :=
      ⟨confined.clean, fun _ hidden => hidden, forall_mem_nil _⟩
    have after := start.after held.deeper.ready inner.guards inner.calm inner_run inner_leaks
    have kept := inner.kept inner_run inner_leaks start place there
    exact (kept.after ready after ends.guards ends.calm run).leave confined inner.guards inner_run
      inner_leaks ready ends run

end

end

end MiddleEnd
