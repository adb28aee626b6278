import MiddleEnd.Proofs.Ty.Level

/-! Instances of type schemes: each placeholder becomes a fresh variable. -/

namespace MiddleEnd

open List

variable {α κ : Type} {entries : List (κ × α)} {value : α}

theorem nodup_eraseDups [BEq α] [LawfulBEq α] (values : List α) : values.eraseDups.Nodup := by
  induction length : values.length using Nat.strongRecOn generalizing values with
  | ind _ ih =>
    cases values with
    | nil => simp
    | cons first rest =>
      rw [eraseDups_cons, nodup_cons]
      constructor
      · rw [mem_eraseDups]
        simp
      · refine ih _ ?_ _ rfl
        have le := length_filter_le (fun value => !value == first) rest
        rw [length_cons] at length
        omega

theorem lookup_of_mem [BEq κ] [LawfulBEq κ] {key : κ} (distinct : (entries.map Prod.fst).Nodup)
    (mem : (key, value) ∈ entries) :
    entries.lookup key = some value := by
  induction entries with
  | nil => cases mem
  | cons entry _ ih =>
    obtain ⟨other, _⟩ := entry
    rw [map_cons, nodup_cons] at distinct
    rcases mem_cons.mp mem with same | there
    · cases same
      exact lookup_cons_self
    · have differs : key ≠ other := by
        rintro rfl
        exact distinct.1 (mem_map.mpr ⟨(key, value), there, rfl⟩)
      rw [List.lookup_cons, beq_false_of_ne differs]
      exact ih distinct.2 there

theorem mem_of_lookup [BEq κ] [LawfulBEq κ] {key : κ} (found : entries.lookup key = some value) :
    (key, value) ∈ entries := by
  induction entries with
  | nil => simp at found
  | cons entry _ ih =>
    obtain ⟨other, _⟩ := entry
    rw [List.lookup_cons] at found
    split at found
    · next same =>
      obtain rfl : key = other := by simpa using same
      obtain rfl := Option.some.inj found
      exact .head _
    · exact .tail _ (ih found)

theorem lookup_map_snd {β : Type} [BEq κ] (change : α → β) (entries : List (κ × α)) (key : κ) :
    (entries.map fun entry => (entry.1, change entry.2)).lookup key = (entries.lookup key).map change := by
  induction entries with
  | nil => rfl
  | cons _ _ ih =>
    rw [map_cons, List.lookup_cons, List.lookup_cons]
    split
    · rfl
    · exact ih

namespace Store

variable {level : Nat}

structure FreshFor (store : Store) (level : Nat) (numbers : List Nat)
    (outcome : Store × List (Nat × Ty)) : Prop where
  grows : store.Grows outcome.1
  keys : outcome.2.map Prod.fst = numbers
  isGeneralized (n : Nat) : outcome.1.isGeneralized n = store.isGeneralized n
  link? (n : Nat) : outcome.1.link? n = store.link? n
  level_of_lt {n : Nat} (made : n < store.size) :
    outcome.1.level n = store.level n
  fresh {n : Nat} {type : Ty} (member : (n, type) ∈ outcome.2) :
    ∃ made, type = .var made ∧ store.size ≤ made ∧ outcome.1.Mono level (.var made)

theorem freshFor_spec (store : Store) (level : Nat) (numbers : List Nat) :
    FreshFor store level numbers (store.freshFor level numbers) := by
  induction numbers generalizing store with
  | nil =>
    exact ⟨.refl store, rfl, fun _ => rfl, fun _ => rfl, fun _ => rfl, fun mem => nomatch mem⟩
  | cons _ _ ih =>
    have rest := ih (store.fresh level).1
    rw [freshFor]
    refine ⟨(store.grows_fresh level).trans rest.grows, ?_, fun other => ?_, fun other => ?_,
      fun {other} made => ?_, fun {other type} mem => ?_⟩
    · rw [map_cons, rest.keys]
    · exact (rest.isGeneralized other).trans (store.isGeneralized_fresh level other)
    · exact (rest.link? other).trans (store.link?_fresh level other)
    · exact (rest.level_of_lt (by rw [size_fresh]; omega)).trans (level_fresh_of_lt made)
    · rcases mem_cons.mp mem with same | mem
      · cases same
        exact ⟨store.size, rfl, Nat.le_refl _, rest.grows.mono (store.mono_fresh level)⟩
      · obtain ⟨made, rfl, later, mono⟩ := rest.fresh mem
        rw [size_fresh] at later
        exact ⟨made, rfl, by omega, mono⟩

structure Instance (store : Store) (level : Nat) (scheme : Ty)
    (outcome : Store × Ty × List (Nat × Ty)) : Prop where
  made : FreshFor store level scheme.generics.eraseDups (outcome.1, outcome.2.2)
  type_eq : outcome.2.1 =
    scheme.substGenerics (fun n => (outcome.2.2.lookup n).getD (.generic n))

variable {store : Store} {scheme : Ty} {outcome : Store × Ty × List (Nat × Ty)}

theorem instance_instantiate (store : Store) (level : Nat) (scheme : Ty) :
    Instance store level scheme (store.instantiate level scheme) :=
  ⟨store.freshFor_spec level _, rfl⟩

section

variable (made : Instance store level scheme outcome)
include made

theorem Instance.distinct : (outcome.2.2.map Prod.fst).Nodup := by
  have keys := made.made.keys
  rw [keys]
  exact nodup_eraseDups _

theorem Instance.lookup {n : Nat}
    (mem : n ∈ scheme.generics) :
    ∃ fresh, outcome.2.2.lookup n = some (.var fresh) ∧ store.size ≤ fresh ∧
      outcome.1.Mono level (.var fresh) := by
  have keys := made.made.keys
  have present : n ∈ outcome.2.2.map Prod.fst := by
    rw [keys, mem_eraseDups]
    exact mem
  obtain ⟨⟨_, _⟩, there, rfl⟩ := mem_map.mp present
  obtain ⟨fresh, rfl, later, mono⟩ := made.made.fresh there
  exact ⟨fresh, lookup_of_mem made.distinct there, later, mono⟩

theorem Instance.mono (scheme_at : store.Scheme level scheme) : outcome.1.Mono level outcome.2.1 := by
  rw [mono_iff, made.type_eq, Ty.substGenerics]
  constructor
  · intro n mem
    rw [Ty.mem_vars_subst] at mem
    obtain ⟨other, there, mem⟩ | ⟨other, there, mem⟩ := mem
    · obtain rfl : n = other := by simpa using mem
      exact made.made.grows.mono (scheme_at n there)
    · obtain ⟨fresh, found, -, mono⟩ := made.lookup there
      rw [found] at mem
      obtain rfl : n = fresh := by simpa using mem
      exact mono
  · rw [eq_nil_iff_forall_not_mem]
    intro _ mem
    rw [Ty.mem_generics_subst] at mem
    obtain ⟨other, there, mem⟩ | ⟨other, there, mem⟩ := mem
    · simp at mem
    · obtain ⟨fresh, found, -, -⟩ := made.lookup there
      rw [found] at mem
      simp at mem

end

end Store

end MiddleEnd
