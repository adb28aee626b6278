import MiddleEnd.Proofs.Ty.Lower
import MiddleEnd.Proofs.Typing.Notes

/-! The types that inference still works with. Two things are watched about their variables: none of
them has been generalized, and those of a low level can be reached from given types. Every step of
inference keeps both. -/

namespace MiddleEnd

open List

variable {store : Store} {type : Ty} {n : Nat} {empties : List Nat} {first second third : Inference}

namespace Store

variable {later : Store} {allowed : Nat → Prop}

/-! ### Stores that leave generalized variables alone -/

structure Leaves (store later : Store) : Prop where
  keeps : store.Keeps later
  frozen {n : Nat} (frozen : store.isGeneralized n = true) :
    later.isGeneralized n = true
  unlinked {n : Nat} (frozen : store.isGeneralized n = true)
    (unlinked : store.link? n = none) : later.link? n = none
  apart {n other : Nat} (frozen : store.isGeneralized n = true)
    (unlinked : store.link? other = none) (differs : n ≠ other) :
    n ∉ (later.expand (.var other)).vars
  plain {n : Nat} (unlinked : store.link? n = none) :
    (later.expand (.var n)).generics = []

theorem Leaves.trans {first second third : Store} (left : first.Leaves second)
    (right : second.Leaves third) : first.Leaves third where
  keeps := left.keeps.trans right.keeps
  frozen frozen := right.frozen (left.frozen frozen)
  unlinked frozen unlinked := right.unlinked (left.frozen frozen) (left.unlinked frozen unlinked)
  apart {n other} frozen unlinked differs mem := by
    obtain ⟨between, there, mem⟩ := right.keeps.mem_vars_expand.mp mem
    have unlinked' := link?_of_mem_expand there
    by_cases same : n = between
    · exact left.apart frozen unlinked differs (same ▸ there)
    · exact right.apart (left.frozen frozen) unlinked' same mem
  plain {n} unlinked := by
    rw [← right.keeps.expand_expand, generics_expand_eq_nil]
    exact ⟨fun _ there => right.plain (link?_of_mem_expand there), left.plain unlinked⟩

theorem Leaves.of_links (size_le : store.size ≤ later.size)
    (links : ∀ n, later.link? n = store.link? n)
    (frozen : ∀ n, store.isGeneralized n = true → later.isGeneralized n = true) :
    store.Leaves later where
  keeps := ⟨size_le, fun linked => (links _).trans linked⟩
  frozen before := frozen _ before
  unlinked _ unlinked := (links _).trans unlinked
  apart {n other} _ unlinked differs mem := by
    rw [expand_of_unlinked ((links other).trans unlinked)] at mem
    exact differs (by simpa using mem)
  plain {n} unlinked := by
    rw [expand_of_unlinked ((links n).trans unlinked)]
    rfl

theorem Leaves.refl (store : Store) : store.Leaves store :=
  .of_links (Nat.le_refl _) (fun _ => rfl) fun _ => id

theorem admits_of_unlinked {rigid : Nat → Prop} (unlinked : store.link? n = none)
    (fits : allowed n) (made : n < store.size) :
    store.Admits allowed rigid (.var n) := by
  refine ⟨fun found mem => ?_, fun found mem => ?_, fun found mem => ?_⟩
  · exact (mem_singleton.mp mem) ▸ made
  · rw [expand_of_unlinked unlinked] at mem
    exact (mem_singleton.mp mem) ▸ fits
  · rw [expand_of_unlinked unlinked] at mem
    cases mem

theorem lt_of_linked (linked : store.link? n ≠ none) : n < store.size := by
  obtain ⟨_, found⟩ := Option.ne_none_iff_exists'.mp linked
  exact link?_lt found

theorem Unified.leaves (unified : store.Unified allowed (fun _ => False) later)
    (unfrozen : ∀ n, allowed n → store.isGeneralized n = false) : store.Leaves later where
  keeps := unified.keeps
  frozen before := (unified.isGeneralized _).trans before
  unlinked {n} frozen unlinked := by
    by_contra linked
    have thawed := unfrozen n (unified.touched unlinked linked)
    rw [frozen] at thawed
    cases thawed
  apart {n other} frozen unlinked differs mem := by
    by_cases linked : later.link? other = none
    · rw [expand_of_unlinked linked] at mem
      exact differs (by simpa using mem)
    · have admits := unified.admits (admits_of_unlinked unlinked (unified.touched unlinked linked)
        (unified.size_eq ▸ lt_of_linked linked))
      have thawed := unfrozen n (admits.vars n mem)
      rw [frozen] at thawed
      cases thawed
  plain {n} unlinked := by
    by_cases linked : later.link? n = none
    · rw [expand_of_unlinked linked]
      rfl
    · have admits := unified.admits (admits_of_unlinked unlinked (unified.touched unlinked linked)
        (unified.size_eq ▸ lt_of_linked linked))
      exact eq_nil_iff_forall_not_mem.mpr admits.generics
end Store

/-! ### Types in play -/

structure Watch where
  alone : Prop
  roots : List Ty
  base : Nat

namespace Watch

variable {watch : Watch} {state later : Inference} {level level' : Nat}

/-- Whether a way along links leads to a variable from the given types or from an external. -/
def Rooted (watch : Watch) (state : Inference) (n : Nat) : Prop :=
  ∃ root ∈ watch.roots ++ state.externals.entries.map (fun entry => entry.2.type),
    n ∈ (state.store.expand root).vars

structure Open (watch : Watch) (state : Inference) (level n : Nat) : Prop where
  level_le : state.store.level n ≤ level
  unfrozen (alone : watch.alone) : state.store.isGeneralized n = false
  tied : watch.base ≤ state.store.level n ∨ watch.Rooted state n

def Holds (watch : Watch) (state : Inference) (level : Nat) (type : Ty) : Prop :=
  state.store.Admits (watch.Open state level) (fun _ => False) type

theorem Holds.mono (holds : watch.Holds state level type) : state.store.Mono level type where
  covers := holds.covers
  levels n mem := (holds.vars n mem).level_le
  plain := eq_nil_iff_forall_not_mem.mpr holds.generics

theorem Holds.at_level (holds : watch.Holds state level type) (mono : state.store.Mono level' type) :
    watch.Holds state level' type :=
  ⟨holds.covers, fun n mem =>
    { holds.vars n mem with level_le := mono.levels n mem }, holds.generics⟩

theorem Holds.deeper (holds : watch.Holds state level type) (le : level ≤ level') :
    watch.Holds state level' type :=
  holds.at_level (holds.mono.mono le)

theorem holds_iff : watch.Holds state level type ↔
    (∀ n ∈ type.vars, watch.Holds state level (.var n)) ∧ type.generics = [] := by
  constructor
  · intro holds
    refine ⟨fun n mem => ?_, holds.mono.generics⟩
    have known := holds.mono.scheme n mem
    refine ⟨known.covers, fun found here => ?_, fun found here => ?_⟩
    · exact holds.vars found (Store.mem_vars_expand.mpr ⟨n, mem, here⟩)
    · rw [known.plain] at here
      cases here
  · rintro ⟨each, plain⟩
    have mono : state.store.Mono level type :=
      Store.mono_iff.mpr ⟨fun n mem => (each n mem).mono, plain⟩
    refine ⟨mono.covers, fun found mem => ?_, fun found mem => ?_⟩
    · obtain ⟨n, there, mem⟩ := Store.mem_vars_expand.mp mem
      exact (each n there).vars found mem
    · rw [mono.plain] at mem
      cases mem

theorem holds_prim (watch : Watch) (state : Inference) (level : Nat) (primitive : Primitive) :
    watch.Holds state level (.prim primitive) :=
  holds_iff.mpr ⟨fun _ mem => (nomatch mem), rfl⟩

theorem holds_app {con : Constructor} :
    watch.Holds state level (.app con type) ↔ watch.Holds state level type := by
  rw [holds_iff, holds_iff]
  rfl

theorem holds_tuple {elements : List Ty} (each : ∀ element ∈ elements, watch.Holds state level element) :
    watch.Holds state level (.tuple elements) := by
  refine holds_iff.mpr ⟨fun n mem => ?_, ?_⟩
  · obtain ⟨element, there, here⟩ := mem_flatMap.mp (Ty.vars_tuple elements ▸ mem)
    exact (holds_iff.mp (each element there)).1 n here
  · rw [Ty.generics_tuple, flatMap_eq_nil_iff]
    exact fun element mem => (each element mem).mono.generics

theorem holds_function {params : List Ty} {result : Ty}
    (params_hold : ∀ param ∈ params, watch.Holds state level param)
    (result_holds : watch.Holds state level result) :
    watch.Holds state level (.function params result) := by
  refine holds_iff.mpr ⟨fun n mem => ?_, ?_⟩
  · rw [Ty.vars_function, mem_append, mem_flatMap] at mem
    obtain ⟨param, there, here⟩ | here := mem
    · exact (holds_iff.mp (params_hold param there)).1 n here
    · exact (holds_iff.mp result_holds).1 n here
  · rw [Ty.generics_function, append_eq_nil_iff, flatMap_eq_nil_iff]
    exact ⟨fun param mem => (params_hold param mem).mono.generics, result_holds.mono.generics⟩

theorem Holds.resolve (holds : watch.Holds state level type) :
    watch.Holds state level (state.store.resolve type) :=
  Store.Admits.resolve holds

theorem holds_of_unlinked (made : n < state.store.size)
    (unlinked : state.store.link? n = none) (opened : watch.Open state level n) :
    watch.Holds state level (.var n) :=
  Store.admits_of_unlinked unlinked opened made

def Good (watch : Watch) (state : Inference) : Prop :=
  ∀ entry ∈ state.externals.entries, watch.Holds state 0 entry.2.type

structure Moves (watch : Watch) (level : Nat) (state later : Inference) : Prop where
  reached : state.Extends later
  good : watch.Good later
  leaves (alone : watch.alone) : state.store.Leaves later.store
  holds {type : Ty} (holds : watch.Holds state level type) : watch.Holds later level type

/-- A step of inference that notes no variable. -/
structure Quiet (watch : Watch) (level : Nat) (state later : Inference) : Prop extends
    Moves watch level state later where
  empties : later.empties = state.empties

instance : Coe (watch.Quiet level state later) (watch.Moves level state later) := ⟨Quiet.toMoves⟩

theorem Good.good (good : watch.Good state) : state.Good :=
  fun entry mem => (good entry mem).mono

theorem Good.refl (good : watch.Good state) (level : Nat) : watch.Quiet level state state :=
  ⟨⟨.refl state, good, fun _ => .refl _, id⟩, rfl⟩

theorem Moves.trans (left : watch.Moves level first second) (right : watch.Moves level second third) :
    watch.Moves level first third :=
  ⟨left.reached.trans right.reached, right.good, fun alone => (left.leaves alone).trans (right.leaves alone),
    fun holds => right.holds (left.holds holds)⟩

section

variable (moves : watch.Moves level state later)
include moves

theorem Moves.steps : state.Steps later :=
  ⟨moves.reached, moves.good.good⟩

theorem Moves.holds_at (le : level' ≤ level)
    (holds : watch.Holds state level' type) : watch.Holds later level' type :=
  (moves.holds (holds.deeper le)).at_level (moves.reached.grows.mono holds.mono)

theorem Moves.shallower (le : level' ≤ level) : watch.Moves level' state later :=
  { moves with holds := moves.holds_at le }

end

theorem Quiet.trans (left : watch.Quiet level first second) (right : watch.Quiet level second third) :
    watch.Quiet level first third :=
  ⟨left.toMoves.trans right.toMoves, right.empties.trans left.empties⟩

theorem Quiet.shallower (quiet : watch.Quiet level state later) (le : level' ≤ level) :
    watch.Quiet level' state later :=
  ⟨quiet.toMoves.shallower le, quiet.empties⟩

theorem Quiet.notes (quiet : watch.Quiet level state later) : Notes state [] later :=
  .of_same quiet.reached.grows.keeps.size_le quiet.empties

theorem Good.moves (good : watch.Good state) (grows : state.store.Grows store)
    (frozen : ∀ n, state.store.isGeneralized n = true → store.isGeneralized n = true)
    (leaves : watch.alone → state.store.Leaves store)
    (holds : ∀ {type : Ty}, watch.Holds state level type →
      watch.Holds { state with store, empties } level type) :
    watch.Moves level state { state with store, empties } := by
  refine ⟨⟨grows, fun before => frozen _ before, id⟩, fun entry mem => ?_, leaves, holds⟩
  have before := good entry mem
  exact (holds (before.deeper (Nat.zero_le level))).at_level (grows.mono before.mono)

theorem Rooted.behind (keeps : state.store.Keeps store) {other : Nat}
    (rooted : watch.Rooted state other) (mem : n ∈ (store.expand (.var other)).vars) :
    watch.Rooted { state with store, empties } n := by
  obtain ⟨root, there, here⟩ := rooted
  exact ⟨root, there, keeps.mem_vars_expand.mpr ⟨other, here, mem⟩⟩

theorem Holds.of_links (holds : watch.Holds state level type) (keeps : state.store.Keeps store)
    (links : ∀ n, store.link? n = state.store.link? n)
    (levels : ∀ n < state.store.size, store.level n = state.store.level n)
    (unfrozen : ∀ n < state.store.size, watch.alone → state.store.level n ≤ level →
      state.store.isGeneralized n = false → store.isGeneralized n = false) :
    watch.Holds { state with store, empties } level type := by
  have expand_eq : store.expand type = state.store.expand type := by
    rw [← keeps.expand_expand type, Store.expand_eq_subst, Ty.substVars]
    conv => rhs; rw [← Ty.subst_self (state.store.expand type)]
    refine Ty.subst_congr (fun n mem => ?_) (fun _ _ => rfl)
    exact Store.expand_of_unlinked ((links n).trans (Store.link?_of_mem_expand mem))
  refine ⟨keeps.covers holds.covers, fun n mem => ?_, fun n mem => ?_⟩
  · change n ∈ (store.expand type).vars at mem
    rw [expand_eq] at mem
    have made := Store.Covers.expand holds.covers n mem
    obtain ⟨level_le, thawed, tied⟩ := holds.vars n mem
    refine ⟨?_, fun alone => unfrozen n made alone level_le (thawed alone), ?_⟩
    · exact (levels n made).symm ▸ level_le
    · refine tied.imp (fun deep => (levels n made).symm ▸ deep) fun rooted => rooted.behind keeps ?_
      rw [Store.expand_of_unlinked ((links n).trans (Store.link?_of_mem_expand mem))]
      simp
  · change n ∈ (store.expand type).generics at mem
    rw [expand_eq] at mem
    exact holds.generics n mem

end Watch

end MiddleEnd
