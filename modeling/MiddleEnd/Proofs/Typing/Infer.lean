import MiddleEnd.Proofs.Scope.Resolve
import MiddleEnd.Proofs.Typing.WatchSteps

/-! What is known before inference comes to the body of a program. -/

namespace MiddleEnd

open List

variable {types : List Ty} {program : Resolved}

namespace Infer

variable {watch : Watch} {state : Inference} {fine : String → Prop}

theorem aliases_moves (good : watch.Good state) (base : watch.base = 0) {before : List Ty}
    {entries : List (Alias Annotation)} (known : ∀ type ∈ before, watch.Holds state 0 type)
    (within : ∀ (index : Nat) (entry : Alias Annotation), entries[index]? = some entry →
      entry.type.Within (before.length + index)) :
    Infers (aliases before entries) state fun types later =>
      watch.Quiet 0 state later ∧ (∀ type ∈ types, watch.Holds later 0 type) ∧
        ∃ added, types = before ++ added ∧ added.length = entries.length ∧
          ∀ (index : Nat) (entry : Alias Annotation), entries[index]? = some entry →
            ∃ type, added[index]? = some type ∧ Describes types entry.type type := by
  induction entries generalizing state before with
  | nil =>
    refine .pure ⟨good.refl 0, known, [], (append_nil before).symm, rfl, ?_⟩
    exact fun _ _ impossible => nomatch impossible
  | cons first _ ih =>
    rw [aliases]
    refine .bind (annotated_moves first.type good (Nat.le_of_eq base) known (within 0 first rfl))
      fun type _ spec => ?_
    obtain ⟨moves, holds, describes⟩ := spec
    refine (ih moves.good ?_ ?_).weaken fun types later spec => ?_
    · exact forall_mem_append.mpr ⟨fun other mem => moves.holds (known other mem),
        forall_mem_singleton.mpr holds⟩
    · intro index entry here
      have rest_within := within (index + 1) entry here
      rw [length_append]
      exact Nat.add_right_comm before.length index 1 ▸ rest_within
    · obtain ⟨rest_moves, all_hold, added, rfl, length, described⟩ := spec
      refine ⟨moves.trans rest_moves, all_hold, type :: added, by simp, by simp [length], ?_⟩
      intro index entry here
      cases index with
      | zero =>
        obtain rfl := Option.some.inj here
        refine ⟨type, rfl, describes.mono fun index _ there => ?_⟩
        rw [append_assoc, getElem?_append_left (List.getElem?_eq_some_iff.mp there).1, there]
      | succ index => exact described index entry here

theorem holds_declared (base : watch.base = 0) {externals : NameMap External} {type : Ty}
    (holds : watch.Holds state 0 type) : watch.Holds { state with externals } 0 type :=
  ⟨holds.covers, fun n mem => ⟨(holds.vars n mem).level_le,
    (holds.vars n mem).unfrozen, .inl (base ▸ Nat.zero_le _)⟩, holds.generics⟩

theorem declarations_moves (good : watch.Good state) (base : watch.base = 0)
    {entries : List (Declaration Annotation)} (known : ∀ type ∈ types, watch.Holds state 0 type)
    (within : ∀ entry ∈ entries, entry.type.Within types.length)
    (once : (entries.map fun entry => entry.name.name).Nodup) :
    Infers (declarations types entries) state fun _ later =>
      watch.Good later ∧ Notes state [] later ∧ (∀ type ∈ types, watch.Holds later 0 type) ∧
        (∀ name external, name ∉ entries.map (fun entry => entry.name.name) →
          state.externals.find? name = some external →
          later.externals.find? name = some external) ∧
        ∀ entry ∈ entries, ∃ type, Describes types entry.type type ∧
          later.externals.find? entry.name.name = some ⟨type, entry.linkName⟩ := by
  induction entries generalizing state with
  | nil => exact .pure ⟨good, .refl state, known, fun _ _ _ found => found, forall_mem_nil _⟩
  | cons first _ ih =>
    rw [map_cons, nodup_cons] at once
    rw [declarations]
    refine .bind (annotated_moves first.type good (Nat.le_of_eq base) known (within first (.head _)))
      fun type middle spec => .modify ?_
    obtain ⟨moves, holds, describes⟩ := spec
    let declared : External := ⟨type, first.linkName⟩
    have declared_good :
        watch.Good { middle with externals := middle.externals.insert first.name.name declared } := by
      intro entry mem
      rcases mem_cons.mp mem with rfl | mem
      · exact holds_declared base holds
      · exact holds_declared base (moves.good entry (mem_filter.mp mem).1)
    refine (ih declared_good (fun type mem => holds_declared base (moves.holds (known type mem)))
      (fun entry mem => within entry (.tail _ mem)) once.2).weaken
      fun _ later ⟨later_good, notes, later_known, others, rest_declared⟩ => ?_
    have declared_notes : Notes state []
        { middle with externals := middle.externals.insert first.name.name declared } :=
      .of_same moves.reached.grows.keeps.size_le moves.empties
    refine ⟨later_good, declared_notes.trans notes, later_known, fun name external unused found => ?_, fun entry mem => ?_⟩
    · rw [map_cons, mem_cons, not_or] at unused
      apply others name external unused.2
      rw [NameMap.find?_insert, if_neg unused.1]
      exact moves.reached.external found
    · rcases mem_cons.mp mem with rfl | mem
      · refine ⟨type, describes, others _ declared once.1 ?_⟩
        rw [NameMap.find?_insert, if_pos rfl]
      · exact rest_declared entry mem

/-- What inference makes of a program. -/
structure Complete (program : Resolved) (typed : TypedExpr) (state : Inference) (types : List Ty) :
    Prop where
  good : state.Good
  erased : typed.erase = program.body
  derives : Derives state { aliases := types } typed
  aliases : types.length = program.aliases.length
  aliased {index : Nat} {entry : Alias Annotation} (here : program.aliases[index]? = some entry) :
    ∃ type, types[index]? = some type ∧ Describes types entry.type type
  declared : ∀ entry ∈ program.externals, ∃ type, Describes types entry.type type ∧
    state.externals.find? entry.name.name = some ⟨type, entry.linkName⟩

def prelude (program : Resolved) : InferM (List Ty) := do
  let types ← aliases [] program.aliases
  declarations types program.externals
  return types

theorem program_eq (program : Resolved) :
    Infer.program program = prelude program >>= fun types => Infer.expr { aliases := types } 0 program.body := by
  simp [Infer.program, prelude]

structure Prepared (program : Resolved) (types : List Ty) (state : Inference) : Prop where
  good : state.Good
  fits : Context.At { aliases := types } state 0 []
  aliases : types.length = program.aliases.length
  aliased {index : Nat} {entry : Alias Annotation} (here : program.aliases[index]? = some entry) :
    ∃ type, types[index]? = some type ∧ Describes types entry.type type
  declared : ∀ entry ∈ program.externals, ∃ type, Describes types entry.type type ∧
    state.externals.find? entry.name.name = some ⟨type, entry.linkName⟩

theorem prelude_moves (placed : program.WellScoped fine) (good : watch.Good state)
    (base : watch.base = 0) : Infers (prelude program) state fun types later =>
      Prepared program types later ∧ watch.Fits { aliases := types } later 0 [] ∧ Notes state [] later := by
  refine .bind (aliases_moves good base (forall_mem_nil _) fun _ _ here => ?_) fun types _ spec => ?_
  · simpa using placed.aliases here
  obtain ⟨moves, types_hold, _, rfl, length, described⟩ := spec
  refine .map (declarations_moves moves.good base types_hold ?_ placed.declared_once)
    fun _ second spec => ?_
  · simpa [length] using placed.externals
  obtain ⟨second_good, notes, known, -, declared⟩ := spec
  have fits : Context.At { aliases := types } second 0 [] :=
    ⟨fun type mem => (known type mem).mono, forall_mem_nil _, forall_mem_nil _⟩
  exact ⟨⟨second_good.good, fits, by simp [length], fun here => described _ _ here, declared⟩,
    ⟨fits, second_good, known, forall_mem_nil _⟩, moves.notes.trans notes⟩

theorem prelude_spec (placed : program.WellScoped fine) (good : state.Good) :
    Infers (prelude program) state (Prepared program) :=
  (prelude_moves placed (Watch.good_unwatched good) rfl).weaken fun _ _ spec => spec.1

theorem Prepared.placed (prepared : Prepared program types state) (placed : program.WellScoped fine) :
    Scoped fine types.length [] program.body :=
  prepared.aliases ▸ placed.body

end Infer

end MiddleEnd
