import Mathlib.Data.List.Nodup
import Mathlib.Logic.Function.Basic
import Mathlib.Logic.Relation
import MiddleEnd.Interner

/-! A table that many callers share. Who looks a string up or adds one holds the table meanwhile, so each of
the two is one step; between the steps of a caller the others may take theirs. Whatever the order of the steps,
the table numbers each string once and for all, and equal numbers mean equal strings. -/

namespace MiddleEnd

namespace Interner

variable {table : Interner} {string : String}

/-! ### One step on the table -/

structure Sound (table : Interner) : Prop where
  distinct : table.strings.toList.Nodup
  numbered (string : String) (index : UInt32) : table.indexOf? string = some index ↔
    ∃ place : Nat, table.strings[place]? = some string ∧ place.toUInt32 = index

/-- Whether a table has what another one has, under the same numbers. -/
structure Extends (later table : Interner) : Prop where
  get {index : UInt32} {string : String} (found : table.get? index = some string) :
    later.get? index = some string
  indexOf {string : String} {index : UInt32} (found : table.indexOf? string = some index) :
    later.indexOf? string = some index

theorem Extends.refl (table : Interner) : table.Extends table := ⟨id, id⟩

theorem Extends.trans {later last : Interner} (first : later.Extends table) (second : last.Extends later) :
    last.Extends table :=
  ⟨second.get ∘ first.get, second.indexOf ∘ first.indexOf⟩

theorem add_of_found {index : UInt32} (found : table.indexOf? string = some index) :
    table.add string = (table, index) := by
  rw [add, found]

theorem add_of_absent (absent : table.indexOf? string = none) : table.add string =
    (⟨table.strings.push string, table.indices.insert string table.strings.size.toUInt32⟩,
      table.strings.size.toUInt32) := by
  rw [add, absent]

theorem indexOf?_add (table : Interner) (string other : String) : (table.add string).1.indexOf? other =
    if other = string then some (table.add string).2 else table.indexOf? other := by
  cases found : table.indexOf? string with
  | some index =>
    rw [add_of_found found]
    split
    · next same => rw [same, found]
    · rfl
  | none =>
    rw [add_of_absent found]
    exact NameMap.find?_insert ..

theorem extends_add (table : Interner) (string : String) : (table.add string).1.Extends table where
  get {index other} found := by
    cases here : table.indexOf? string with
    | some index => rwa [add_of_found here]
    | none =>
      rw [add_of_absent here, get?, Array.getElem?_push]
      rw [get?] at found
      rwa [if_neg (Nat.ne_of_lt (Array.getElem?_eq_some_iff.mp found).1)]
  indexOf {other index} found := by
    rw [indexOf?_add, found]
    split
    · next same => rw [add_of_found (same ▸ found)]
    · rfl

theorem Sound.add (sound : table.Sound) (string : String) : (table.add string).1.Sound := by
  cases found : table.indexOf? string with
  | some index => rwa [add_of_found found]
  | none =>
    -- Nothing was found once the table was free, so the string has no place yet.
    have absent (place : Nat) : table.strings[place]? ≠ some string := fun there =>
      Option.some_ne_none _ (((sound.numbered ..).mpr ⟨place, there, rfl⟩).symm.trans found)
    refine ⟨?_, fun other index => ?_⟩
    · rw [add_of_absent found, Array.toList_push]
      refine List.nodup_append.mpr ⟨sound.distinct, List.nodup_singleton _, ?_⟩
      rintro _ mem _ new rfl
      obtain ⟨place, there⟩ := List.mem_iff_getElem?.mp mem
      exact absent place (by simpa [List.mem_singleton.mp new] using there)
    · have places (place : Nat) : (table.strings.push string)[place]? = some other ↔
          table.strings[place]? = some other ∨ place = table.strings.size ∧ other = string := by
        rw [Array.getElem?_push]
        split
        · next last => simp [last, eq_comm]
        · next earlier => simp [earlier]
      rw [indexOf?_add, add_of_absent found]
      simp only [places, or_and_right, exists_or, ← sound.numbered]
      by_cases same : other = string
      · simp [same, found]
      · simp [same]

theorem sound_empty : Interner.empty.Sound :=
  ⟨.nil, fun _ _ => ⟨nofun, fun ⟨_, found, _⟩ => by simp [Interner.empty] at found⟩⟩

theorem Sound.indexOf?_eq_some_iff (sound : table.Sound) (few : table.strings.size ≤ UInt32.size) (string : String)
    (index : UInt32) : table.indexOf? string = some index ↔ table.get? index = some string := by
  rw [sound.numbered]
  refine ⟨fun ⟨place, there, number⟩ => ?_, fun there => ⟨index.toNat, there, by simp⟩⟩
  have lt := (Array.getElem?_eq_some_iff.mp there).1
  rwa [get?, ← number, Nat.toUInt32_eq, UInt32.toNat_ofNat_of_lt' (Nat.lt_of_lt_of_le lt few)]

end Interner

/-! ### Callers that share a table -/

inductive Phase where
  | idle
  | looking (string : String)
  | missed (string : String)

/-- A table, its callers, and the strings of the calls that have returned with the numbers they returned. -/
structure Shared (Caller : Type) where
  table : Interner := .empty
  phase : Caller → Phase := fun _ => .idle
  returned : List (String × UInt32) := []

namespace Shared

variable {Caller : Type} [DecidableEq Caller] {shared later : Shared Caller}

def move (shared : Shared Caller) (caller : Caller) (phase : Phase) : Shared Caller :=
  { shared with phase := Function.update shared.phase caller phase }

def finish (shared : Shared Caller) (caller : Caller) (string : String) (index : UInt32) : Shared Caller :=
  { shared.move caller .idle with returned := (string, index) :: shared.returned }

/-- One caller takes one step. -/
inductive Step (shared : Shared Caller) : Shared Caller → Prop where
  | call (caller : Caller) (string : String) (idle : shared.phase caller = .idle) :
    Step shared (shared.move caller (.looking string))
  | hit (caller : Caller) (string : String) (index : UInt32) (looking : shared.phase caller = .looking string)
    (found : shared.table.indexOf? string = some index) : Step shared (shared.finish caller string index)
  | miss (caller : Caller) (string : String) (looking : shared.phase caller = .looking string)
    (absent : shared.table.indexOf? string = none) : Step shared (shared.move caller (.missed string))
  | add (caller : Caller) (string : String) (missed : shared.phase caller = .missed string) :
    Step shared { shared.finish caller string (shared.table.add string).2 with
      table := (shared.table.add string).1 }

/-- Any callers take any number of steps in any order. -/
def Run : Shared Caller → Shared Caller → Prop := Relation.ReflTransGen Step

structure Consistent (shared : Shared Caller) : Prop where
  sound : shared.table.Sound
  returned : ∀ call ∈ shared.returned, shared.table.indexOf? call.1 = some call.2

theorem Step.extends (step : shared.Step later) : later.table.Extends shared.table := by
  cases step with
  | call | hit | miss => exact .refl _
  | add caller string => exact Interner.extends_add shared.table string

theorem Step.consistent (step : shared.Step later) (consistent : shared.Consistent) : later.Consistent := by
  obtain ⟨sound, returned⟩ := consistent
  cases step with
  | call | miss => exact ⟨sound, returned⟩
  | hit caller string index _ found => exact ⟨sound, List.forall_mem_cons.mpr ⟨found, returned⟩⟩
  | add caller string =>
    refine ⟨sound.add string, List.forall_mem_cons.mpr ⟨?_, fun call mem => ?_⟩⟩
    · exact (Interner.indexOf?_add ..).trans (if_pos rfl)
    · exact (Interner.extends_add ..).indexOf (returned call mem)

theorem Run.extends (run : shared.Run later) : later.table.Extends shared.table := by
  induction run with
  | refl => exact .refl _
  | tail _ step ih => exact ih.trans step.extends

theorem Run.consistent (run : shared.Run later) (consistent : shared.Consistent) : later.Consistent := by
  induction run with
  | refl => exact consistent
  | tail _ step ih => exact step.consistent ih

theorem run_intern {caller : Caller} {string : String} (looking : shared.phase caller = .looking string) :
    ∃ phase, shared.Run ⟨(shared.table.intern string).1, phase,
      (string, (shared.table.intern string).2) :: shared.returned⟩ := by
  cases found : shared.table.indexOf? string with
  | some index =>
    rw [Interner.intern, found]
    exact ⟨_, .single (.hit caller string index looking found)⟩
  | none =>
    rw [Interner.intern, found]
    have missed : (shared.move caller (.missed string)).phase caller = .missed string := by simp [move]
    exact ⟨_, .tail (.single (.miss caller string looking found)) (.add caller string missed)⟩

/-- However the steps of the callers are ordered, strings and numbers are inverse to each other, no string is
stored twice, what is stored stays, each call that returned has returned the one number under which its string
is stored, and two calls returned equal numbers if and only if their strings are equal. -/
theorem symbols_identify (reached : ({} : Shared Caller).Run shared) (few : shared.table.strings.size < UInt32.size) :
    (∀ string index, shared.table.indexOf? string = some index ↔ shared.table.get? index = some string) ∧
    shared.table.strings.toList.Nodup ∧
    (∀ later, shared.Run later → later.table.Extends shared.table) ∧
    (∀ call ∈ shared.returned, ∀ index, shared.table.get? index = some call.1 ↔ index = call.2) ∧
    ∀ first ∈ shared.returned, ∀ second ∈ shared.returned, first.2 = second.2 ↔ first.1 = second.1 := by
  obtain ⟨sound, returned⟩ := reached.consistent ⟨Interner.sound_empty, fun _ mem => nomatch mem⟩
  have inverse := sound.indexOf?_eq_some_iff (Nat.le_of_lt few)
  refine ⟨inverse, sound.distinct, fun _ run => run.extends, fun call mem index => ?_, fun first here second there => ?_⟩
  · rw [← inverse, returned call mem, Option.some_inj, eq_comm]
  · have first_get := (inverse ..).mp (returned first here)
    have second_get := (inverse ..).mp (returned second there)
    refine ⟨fun same => ?_, fun same => ?_⟩
    · exact Option.some_inj.mp (first_get.symm.trans (same ▸ second_get))
    · exact Option.some_inj.mp ((returned first here).symm.trans (same ▸ returned second there))

def bothMissed : Shared Bool :=
  ((({} : Shared Bool).move true (.looking "x")).move false (.looking "x")).move true (.missed "x")
    |>.move false (.missed "x")

def bothAdded : Shared Bool :=
  let first := { bothMissed.finish true "x" (bothMissed.table.add "x").2 with table := (bothMissed.table.add "x").1 }
  { first.finish false "x" (first.table.add "x").2 with table := (first.table.add "x").1 }

theorem run_bothAdded : ({} : Shared Bool).Run bothAdded :=
  .tail (.tail (.tail (.tail (.tail (.tail .refl (.call true "x" rfl)) (.call false "x" rfl))
    (.miss true "x" rfl rfl)) (.miss false "x" rfl rfl)) (.add true "x" rfl)) (.add false "x" rfl)

theorem symbols_identify_bothAdded : bothAdded.table.strings.size < UInt32.size ∧
    bothAdded.returned = [("x", 0), ("x", 0)] ∧ bothAdded.table.strings.toList.Nodup ∧
      ∀ index, bothAdded.table.get? index = some "x" ↔ index = 0 := by
  have few : bothAdded.table.strings.size < UInt32.size := by decide
  have returned : bothAdded.returned = [("x", 0), ("x", 0)] := by decide
  obtain ⟨-, distinct, -, numbers, -⟩ := symbols_identify run_bothAdded few
  exact ⟨few, returned, distinct, numbers ("x", 0) (by simp [returned])⟩

end Shared

end MiddleEnd
