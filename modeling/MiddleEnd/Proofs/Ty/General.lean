import MiddleEnd.Proofs.Ty.Depth

/-! Unification loses no solution: a substitution that respects the links and makes the two types equal
respects the links after the call too, and where there is one the call does not fail. -/

namespace MiddleEnd

variable {type : Ty} {n : Nat}

namespace Ty

theorem substVars_eq_mapChildren (compound : ∀ n, type ≠ .var n) (solution : Nat → Ty) :
    type.substVars solution = type.mapChildren (substVars solution) := by
  cases type with
  | var n => exact absurd rfl (compound n)
  | _ => simp [substVars, mapChildren]

theorem eq_var_or_height_lt (solution : Nat → Ty) (mem : n ∈ type.vars) :
    type = .var n ∨ (solution n).height < (type.substVars solution).height := by
  induction type using children_induction with
  | step type ih =>
    by_cases compound : ∀ other, type ≠ .var other
    · rw [vars_eq_children compound] at mem
      obtain ⟨part, there, here⟩ := List.mem_flatMap.mp mem
      have below : (part.substVars solution).height < (type.substVars solution).height := by
        rw [substVars_eq_mapChildren compound]
        exact height_lt_of_child (children_mapChildren type _ ▸ List.mem_map_of_mem there)
      rcases ih part there here with rfl | lower
      · exact .inr below
      · exact .inr (Nat.lt_trans lower below)
    · simp only [Classical.not_forall, Classical.not_not] at compound
      obtain ⟨other, rfl⟩ := compound
      obtain rfl : n = other := by simpa using mem
      exact .inl rfl

end Ty

namespace Store

variable {store later : Store} {allowed rigid : Nat → Prop} {solution : Nat → Ty}

theorem SameLinks.solves (same : store.SameLinks later) (solves : store.Solves solution) :
    later.Solves solution :=
  fun n type linked => solves n type ((same.2 n).symm.trans linked)

theorem mem_expand_of_reaches {last : Nat} (unlinked : store.link? last = none)
    (reaches : store.cells.Reaches n last) : last ∈ (store.expand (.var n)).vars := by
  induction reaches with
  | here _ => simp [expand_of_unlinked unlinked]
  | step linked mem _ ih =>
    rw [expand_of_linked linked]
    exact mem_vars_expand.mpr ⟨_, mem, ih unlinked⟩

theorem mem_expand_of_occurs (unlinked : store.link? n = none)
    (found : (store.occurs n type).1 = true) : n ∈ (store.expand type).vars := by
  obtain ⟨next, there, reaches⟩ := (store.sought_occurs n type).reaches found
  exact mem_vars_expand.mpr ⟨next, there, mem_expand_of_reaches unlinked reaches⟩

theorem resolve_resolve (store : Store) (type : Ty) :
    store.resolve (store.resolve type) = store.resolve type := by
  cases head : store.resolve type with
  | var _ => rw [resolve, chase, resolve_eq_var head]
  | _ => rfl

theorem Solves.resolve (solves : store.Solves solution) (type : Ty) :
    (store.resolve type).substVars solution = type.substVars solution := by
  rw [← solves.expand, expand_resolve, solves.expand]

theorem expand_ne_var (head : store.resolve type = type) (differs : type ≠ .var n) :
    store.expand type ≠ .var n := by
  cases type with
  | var _ => rwa [expand_of_unlinked (resolve_eq_var head)]
  | _ => simp

/-! ### Solutions survive -/

structure Survives (solution : Nat → Ty) (outcome : Store × Option Clash) : Prop where
  solves : outcome.1.Solves solution
  ends {clash : Clash} (failure : outcome.2 = some clash) : clash.reason = .endless

theorem Survives.success (solves : store.Solves solution) : Survives solution (store, none) :=
  ⟨solves, fun failure => nomatch failure⟩

theorem Survives.under {clash : Clash} (survives : Survives solution (store, some clash)) (step : Step) :
    Survives solution (store, some (clash.under step)) := by
  refine ⟨survives.solves, fun failure => ?_⟩
  obtain rfl := Option.some.inj failure
  exact @Survives.ends _ _ survives clash rfl

theorem survives_bind (unlinked : store.link? n = none) (made : n < store.size)
    (covers : store.Covers type) (head : store.resolve type = type) (differs : type ≠ .var n)
    (solves : store.Solves solution) (equal : solution n = type.substVars solution) :
    Survives solution (store.bind n type) := by
  have same := store.occurs_sameLinks n type
  rw [bind]
  split
  · next missing found =>
    rw [missing?_eq_none.mpr covers] at found
    cases found
  · dsimp only
    split
    · refine .success fun other target linked => ?_
      rw [link?_setLink (same.1 ▸ made)] at linked
      split at linked
      · next here =>
        obtain rfl := Option.some.inj linked
        rw [here, equal]
      · exact same.solves solves other target linked
    · next found =>
      -- The variable would stand in the type that it is to be equal to.
      have mem := mem_expand_of_occurs unlinked (Bool.not_eq_false _ ▸ found)
      rcases Ty.eq_var_or_height_lt solution mem with same | higher
      · exact absurd same (expand_ne_var head differs)
      · rw [solves.expand, equal] at higher
        exact absurd higher (Nat.lt_irrefl _)

theorem traced_survives (allowed rigid : Nat → Prop) (solution : Nat → Ty) : Traced allowed rigid
    (fun _ store left right outcome => store.Solves solution →
      left.substVars solution = right.substVars solution → Survives solution outcome)
    (fun _ verdict store parts outcome => verdict = none → store.Solves solution →
      (∀ joint ∈ parts, joint.2.1.substVars solution = joint.2.2.substVars solution) →
      Survives solution outcome) where
  endless _ _ _ solves _ := ⟨solves, fun failure => by rw [← Option.some.inj failure]⟩
  same _ solves _ := .success solves
  left {_ store left right type n} left_head right_head differs number_admits type_admits solves
      equal := by
    rw [← solves.resolve, left_head, ← solves.resolve right, right_head] at equal
    exact survives_bind (resolve_eq_var left_head) (number_admits.covers _ (by simp)) type_admits.covers
      (right_head ▸ store.resolve_resolve right) (Ne.symm differs) solves equal
  right {_ store left right type n} left_head right_head compound number_admits type_admits solves
      equal := by
    rw [← solves.resolve, left_head, ← solves.resolve right, right_head] at equal
    exact survives_bind (resolve_eq_var right_head) (number_admits.covers _ (by simp)) type_admits.covers
      (left_head ▸ store.resolve_resolve left) (compound n) solves equal.symm
  parts {_ store left right _ _ _} left_head right_head differs compound compound' turns solves equal := by
    rw [← solves.resolve, left_head, ← solves.resolve right, right_head,
      Ty.substVars_eq_mapChildren compound, Ty.substVars_eq_mapChildren compound', Ty.mapChildren_eq_iff differs] at equal
    exact turns equal.1 solves equal.2
  done is_none solves _ := is_none ▸ .success solves
  next _ first rest is_none solves equal := by
    rw [List.forall_mem_cons] at equal
    exact rest is_none (first solves equal.1).solves equal.2
  fails first _ solves equal := (first solves (equal _ (.head _))).under _

theorem survives_unifyWithin (fuel : Nat) (store : Store) (left right : Ty)
    (left_admits : store.Admits allowed rigid left) (right_admits : store.Admits allowed rigid right)
    (solves : store.Solves solution) (equal : left.substVars solution = right.substVars solution) :
    Survives solution (unifyWithin fuel store left right) :=
  (traced_survives allowed rigid solution).run fuel store left right left_admits right_admits solves equal

/-! ### The outcome of a call -/

/-- An outcome that is a success exactly if some substitution that respects the links makes the two types
equal, and that loses none of those. Substitutions leave placeholders alone. -/
structure MostGeneral (store : Store) (left right : Ty) (outcome : Store × Option Clash) : Prop where
  solvable : outcome.2 = none ↔
    ∃ solution, store.Solves solution ∧ left.substVars solution = right.substVars solution
  kept (n : Nat) (type : Ty) (linked : store.link? n = some type) :
    outcome.1.link? n = some type
  equal (success : outcome.2 = none) : outcome.1.expand left = outcome.1.expand right
  general (success : outcome.2 = none) (solution : Nat → Ty) (solves : store.Solves solution)
    (equal : left.substVars solution = right.substVars solution) : outcome.1.Solves solution

theorem unify_most_general (store : Store) (left right : Ty) (left_covers : store.Covers left)
    (right_covers : store.Covers right) : MostGeneral store left right (store.unify left right) := by
  have attempt := attempt_unify left_covers.admits right_covers.admits
  have survives {solution : Nat → Ty} (solves : store.Solves solution)
      (equal : left.substVars solution = right.substVars solution) :
      Survives solution (store.unify left right) :=
    survives_unifyWithin _ store left right left_covers.admits right_covers.admits solves equal
  refine ⟨⟨fun success => ?_, fun ⟨solution, solves, equal⟩ => ?_⟩,
    fun _ _ => attempt.unified.keeps.link?, attempt.equal,
    fun _ solution solves equal => (survives solves equal).solves⟩
  · -- The links themselves are a solution, with every unlinked variable left as it is.
    refine ⟨(store.unify left right).1.solution .var,
      attempt.unified.keeps.solves (solves_solution _ _), ?_⟩
    rw [substVars_solution, substVars_solution, attempt.equal success]
  · cases outcome : (store.unify left right).2 with
    | none => rfl
    | some clash =>
      exact absurd ((survives solves equal).ends outcome) (unify_ends left_covers.admits right_covers.admits outcome)

/-- Two variables, of which a first call has linked one to arrays of the other. -/
def linkedPair : Store :=
  (((empty.fresh 0).1.fresh 1).1.unify (.var 0) (.array (.var 1))).1

theorem unify_most_general_linkedPair :
    linkedPair.Covers (.function [.var 0] (.var 1)) ∧
      linkedPair.Covers (.function [.array .int] (.generic 7)) ∧
      MostGeneral linkedPair (.function [.var 0] (.var 1)) (.function [.array .int] (.generic 7))
        (linkedPair.unify (.function [.var 0] (.var 1)) (.function [.array .int] (.generic 7))) ∧
      ¬ ∃ solution, linkedPair.Solves solution ∧
        (Ty.function [.var 0] (.var 1)).substVars solution =
          (Ty.function [.array .int] (.generic 7)).substVars solution := by
  have left_covers : linkedPair.Covers (.function [.var 0] (.var 1)) :=
    missing?_eq_none.mp (by decide)
  have right_covers : linkedPair.Covers (.function [.array .int] (.generic 7)) :=
    missing?_eq_none.mp (by decide)
  have general := unify_most_general linkedPair _ _ left_covers right_covers
  refine ⟨left_covers, right_covers, general, fun solvable => ?_⟩
  have success := general.solvable.mpr solvable
  exact absurd (congrArg Option.isSome success) (by decide)

end Store

end MiddleEnd
