import Mathlib.Data.List.Nodup
import MiddleEnd.Code.Forward
import MiddleEnd.Proofs.Typing.Primitives

/-! Chains of copies. A chain that ends at an external meets no name twice, so the search for its end
never gives up early. -/

namespace MiddleEnd

open List

namespace Copies

variable {copies : NameMap Copy} {fuel fuel' : Nat} {name external : String} {names : List String}

theorem toExternal_succ :
    toExternal copies (fuel + 1) name = some (names, external) ↔
      ∃ copy, copies.find? name = some copy ∧
        (copy.isExternal = true ∧ names = [name] ∧ external = copy.target ∨
          copy.isExternal = false ∧ ∃ rest, names = name :: rest ∧
            toExternal copies fuel copy.target = some (rest, external)) := by
  rw [toExternal]
  cases here : copies.find? name with
  | none => simp
  | some copy =>
    cases outside : copy.isExternal with
    | true =>
      simp only [outside, if_true, Option.some.injEq, Prod.mk.injEq, exists_eq_left', true_and,
        Bool.true_eq_false, false_and, or_false]
      rw [eq_comm, @eq_comm _ copy.target]
    | false =>
      simp only [outside, Bool.false_eq_true, if_false, Option.map_eq_some_iff, Prod.exists,
        Prod.mk.injEq, Option.some.injEq, exists_eq_left', false_and, false_or, true_and]
      constructor
      · rintro ⟨rest, target, rest_found, rfl, rfl⟩
        exact ⟨rest, rfl, rest_found⟩
      · rintro ⟨rest, rfl, rest_found⟩
        exact ⟨rest, external, rest_found, rfl, rfl⟩

section

variable (found : toExternal copies fuel name = some (names, external))
include found

theorem toExternal_of_length_le (enough : names.length ≤ fuel') :
    toExternal copies fuel' name = some (names, external) := by
  induction fuel generalizing name names fuel' with
  | zero => cases found
  | succ _ ih =>
    obtain ⟨copy, here, shape⟩ := toExternal_succ.mp found
    have filled : 0 < names.length := by
      rcases shape with ⟨_, rfl, _⟩ | ⟨_, rest, rfl, _⟩ <;> simp
    obtain ⟨fuel', rfl⟩ := Nat.exists_eq_succ_of_ne_zero (Nat.ne_of_gt (Nat.lt_of_lt_of_le filled enough))
    refine toExternal_succ.mpr ⟨copy, here, shape.imp_right ?_⟩
    rintro ⟨inside, rest, rfl, rest_found⟩
    exact ⟨inside, rest, rfl, ih rest_found (Nat.le_of_succ_le_succ enough)⟩

theorem toExternal_unique {names' : List String} {external' : String}
    (found' : toExternal copies fuel' name = some (names', external')) :
    names = names' ∧ external = external' := by
  have left := toExternal_of_length_le found (Nat.le_max_left _ names'.length)
  have right := toExternal_of_length_le found' (Nat.le_max_right names.length _)
  simpa using left.symm.trans right

theorem toExternal_of_mem {link : String} (mem : link ∈ names) :
    ∃ fuel rest, toExternal copies fuel link = some (rest, external) ∧ rest.length ≤ names.length := by
  induction fuel generalizing name names with
  | zero => cases found
  | succ fuel ih =>
    obtain ⟨_, _, ⟨_, rfl, _⟩ | ⟨_, rest, rfl, rest_found⟩⟩ := toExternal_succ.mp found
    · rw [mem_singleton] at mem
      exact ⟨fuel + 1, [name], mem ▸ found, Nat.le_refl _⟩
    · rcases mem_cons.mp mem with rfl | mem
      · exact ⟨fuel + 1, _, found, Nat.le_refl _⟩
      · obtain ⟨fuel', rest', link_found, shorter⟩ := ih rest_found mem
        exact ⟨fuel', rest', link_found, Nat.le_succ_of_le shorter⟩

theorem chain_nodup : names.Nodup := by
  induction fuel generalizing name names with
  | zero => cases found
  | succ _ ih =>
    obtain ⟨_, _, ⟨_, rfl, _⟩ | ⟨_, _, rfl, rest_found⟩⟩ := toExternal_succ.mp found
    · exact nodup_singleton name
    · refine nodup_cons.mpr ⟨fun again => ?_, ih rest_found⟩
      obtain ⟨_, _, again_found, _⟩ := toExternal_of_mem rest_found again
      have longer := congrArg length (toExternal_unique again_found found).1
      rw [length_cons] at longer
      omega

theorem chain_subset_keys : names ⊆ copies.keys := by
  induction fuel generalizing name names with
  | zero => cases found
  | succ _ ih =>
    obtain ⟨_, here, shape⟩ := toExternal_succ.mp found
    have own : name ∈ copies.keys := mem_map_of_mem (NameMap.mem_of_find? here)
    rcases shape with ⟨_, rfl, _⟩ | ⟨_, rest, rfl, rest_found⟩
    · exact cons_subset.mpr ⟨own, nil_subset _⟩
    · exact cons_subset.mpr ⟨own, ih rest_found⟩

end

theorem external?_eq_some :
    external? copies name = some (names, external) ↔
      ∃ fuel, toExternal copies fuel name = some (names, external) := by
  refine ⟨fun found => ⟨_, found⟩, fun ⟨fuel, found⟩ => toExternal_of_length_le found ?_⟩
  have bounded := (subperm_of_subset (chain_nodup found) (chain_subset_keys found)).length_le
  rw [NameMap.keys, length_map] at bounded
  exact Nat.le_succ_of_le bounded

end Copies

end MiddleEnd
