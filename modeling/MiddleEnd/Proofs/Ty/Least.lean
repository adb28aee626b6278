import Mathlib.Order.Bounds.Basic
import MiddleEnd.Proofs.Ty.General
import MiddleEnd.Proofs.Ty.Lower
import MiddleEnd.Proofs.Ty.Runs

/-! The levels that unification leaves. An unlinked variable has the least of the levels at which the
variables that lead to it were made, whatever the order of the calls that made them lead there. -/

namespace MiddleEnd.Store

open List

variable {store later : Store} {requests : List Request} {n : Nat} {left right : Ty}
  {allowed rigid : Nat → Prop} {type : Ty} {levels : List Nat} {solution : Nat → Ty}

/-! ### Linked variables -/

def Sinks (store : Store) : Prop :=
  ∀ n, ∀ found ∈ (store.expand (.var n)).vars, store.level found ≤ store.level n

theorem level_bind_of_linked {other : Nat} (made : n < store.size)
    (linked : (store.bind n type).1.link? other ≠ none) :
    (store.bind n type).1.level other = store.level other := by
  have searched (linked : other = n ∨ store.link? other ≠ none) :
      (store.occurs n type).2.level other = store.level other := by
    have sought := store.sought_occurs n type
    rcases sought.level_cases other with same | ⟨-, next, -, mem⟩
    · exact same
    · rcases linked with rfl | linked
      · exact sought.level_self
      · exact absurd (link?_of_mem_expand mem) linked
  have same := store.occurs_sameLinks n type
  revert linked
  rw [bind]
  split
  · exact fun _ => rfl
  · dsimp only
    split
    · rw [link?_setLink (same.1 ▸ made), level_setLink]
      intro linked
      refine searched ?_
      by_cases here : other = n
      · exact .inl here
      · rw [if_neg here, same.2] at linked
        exact .inr linked
    · rw [same.2]
      exact fun linked => searched (.inr linked)

theorem sinks_bind (unlinked : store.link? n = none)
    (number_admits : store.Admits allowed rigid (.var n))
    (type_admits : store.Admits allowed rigid type) (sinks : store.Sinks) :
    (store.bind n type).1.Sinks := by
  have unified := (attempt_bind unlinked number_admits type_admits).unified
  intro other found mem
  cases linked : (store.bind n type).1.link? other with
  | none =>
    rw [expand_of_unlinked linked] at mem
    exact mem_singleton.mp mem ▸ Nat.le_refl _
  | some target =>
    obtain ⟨between, there, mem⟩ := unified.keeps.mem_vars_expand.mp mem
    have same := level_bind_of_linked (number_admits.covers n (by simp)) (linked ▸ Option.some_ne_none target)
    rw [same]
    exact Nat.le_trans (unified.levels (link?_of_mem_expand there) found mem) (sinks other between there)

theorem sinks_unify (left_admits : store.Admits allowed rigid left)
    (right_admits : store.Admits allowed rigid right) (success : (store.unify left right).2 = none)
    (sinks : store.Sinks) : (store.unify left right).1.Sinks :=
  (@traced_bindings allowed rigid (fun store later => store.Sinks → later.Sinks) (fun _ => id)
    (fun first second => second ∘ first) fun _ _ _ unlinked number_admits type_admits _ =>
      sinks_bind unlinked number_admits type_admits).run _ store left right left_admits right_admits success sinks

/-! ### Unlinked variables -/

structure Least (store : Store) (levels : List Nat) : Prop where
  size : levels.length = store.size
  level {n : Nat} (made : n < store.size) (unlinked : store.link? n = none) :
    IsLeast {level | ∃ source, levels[source]? = some level ∧ n ∈ (store.expand (.var source)).vars}
      (store.level n)

theorem expand_of_le (unmade : store.size ≤ n) : store.expand (.var n) = .var n := by
  refine expand_of_unlinked ?_
  by_contra linked
  obtain ⟨_, found⟩ := Option.ne_none_iff_exists'.mp linked
  exact absurd (link?_lt found) (Nat.not_lt_of_le unmade)

theorem sinks_fresh (sinks : store.Sinks) (level : Nat) : (store.fresh level).1.Sinks := by
  intro n found mem
  rw [sameLinks_expand_fresh] at mem
  by_cases made : n < store.size
  · have there : found < store.size :=
      Covers.expand (fun _ here => mem_singleton.mp here ▸ made) found mem
    rw [level_fresh_of_lt made, level_fresh_of_lt there]
    exact sinks n found mem
  · rw [expand_of_le (Nat.le_of_not_lt made)] at mem
    exact mem_singleton.mp mem ▸ Nat.le_refl _

theorem least_empty : empty.Least [] := ⟨rfl, fun made => absurd made (Nat.not_lt_zero _)⟩

theorem Least.fresh (least : store.Least levels) (level : Nat) :
    (store.fresh level).1.Least (levels ++ [level]) := by
  have entry (source made : Nat) : (levels ++ [level])[source]? = some made ↔
      levels[source]? = some made ∨ source = store.size ∧ made = level := by
    rw [← least.size]
    grind
  refine ⟨by simp [least.size], fun {n} made unlinked => ?_⟩
  rw [link?_fresh] at unlinked
  simp only [sameLinks_expand_fresh, entry]
  rcases Nat.lt_succ_iff_lt_or_eq.mp (size_fresh store level ▸ made) with old | rfl
  · rw [level_fresh_of_lt old]
    obtain ⟨⟨source, found, mem⟩, lowest⟩ := least.level old unlinked
    refine ⟨⟨source, .inl found, mem⟩, ?_⟩
    rintro _ ⟨source, found | ⟨rfl, -⟩, mem⟩
    · exact lowest ⟨source, found, mem⟩
    · rw [expand_of_le (Nat.le_refl _)] at mem
      exact absurd (mem_singleton.mp mem ▸ old) (Nat.lt_irrefl _)
  · rw [level_fresh_self]
    refine ⟨⟨store.size, .inr ⟨rfl, rfl⟩, by simp [expand_of_le]⟩, ?_⟩
    rintro _ ⟨source, found | ⟨-, rfl⟩, mem⟩
    · have made : source < store.size := least.size ▸ (List.getElem?_eq_some_iff.mp found).1
      exact absurd (Covers.expand (fun _ here => mem_singleton.mp here ▸ made) _ mem) (Nat.lt_irrefl _)
    · exact Nat.le_refl _

theorem Least.unify (least : store.Least levels) (left_admits : store.Admits allowed rigid left)
    (right_admits : store.Admits allowed rigid right) (success : (store.unify left right).2 = none) :
    (store.unify left right).1.Least levels := by
  have unified := (attempt_unify left_admits right_admits).unified
  obtain ⟨keeps, lowered⟩ := lowered_unify left_admits right_admits success
  refine ⟨least.size.trans unified.size_eq.symm, fun {n} made unlinked => ⟨?_, ?_⟩⟩
  · rcases lowered n unlinked with same | ⟨between, free, same, mem⟩
    · obtain ⟨source, found, mem⟩ := (least.level (unified.size_eq ▸ made) (keeps.unlinked unlinked)).1
      exact ⟨source, same ▸ found, keeps.mem_vars_expand.mpr ⟨n, mem, by simp [expand_of_unlinked unlinked]⟩⟩
    · have there : between < store.size := by
        by_contra unmade
        rw [expand_of_le (unified.size_eq ▸ Nat.le_of_not_lt unmade)] at mem
        exact unmade (unified.size_eq ▸ mem_singleton.mp mem ▸ made)
      obtain ⟨source, found, leads⟩ := (least.level there free).1
      exact ⟨source, same ▸ found, keeps.mem_vars_expand.mpr ⟨between, leads, mem⟩⟩
  · rintro level ⟨source, found, mem⟩
    obtain ⟨between, leads, mem⟩ := keeps.mem_vars_expand.mp mem
    have free := link?_of_mem_expand leads
    have there : between < store.size := Covers.expand (fun _ here => mem_singleton.mp here ▸
      least.size ▸ (List.getElem?_eq_some_iff.mp found).1) between leads
    exact Nat.le_trans (unified.levels free n mem) ((least.level there free).2 ⟨source, found, leads⟩)

/-! ### Histories of calls -/

def Request.level? : Request → Option Nat
  | .fresh level => some level
  | .unify _ _ => none

/-- The levels at which calls make variables, in the order of the variables. -/
def creationLevels (requests : List Request) : List Nat := requests.filterMap Request.level?

/-- Calls that all succeed, on types over the variables that the calls before them have made. -/
inductive Succeed : List Request → Prop where
  | nil : Succeed []
  | fresh {requests : List Request} (before : Succeed requests) (level : Nat) :
      Succeed (requests ++ [.fresh level])
  | unify {requests : List Request} (before : Succeed requests) {left right : Ty}
      (left_covers : (replay requests).Covers left) (right_covers : (replay requests).Covers right)
      (success : ((replay requests).unify left right).2 = none) : Succeed (requests ++ [.unify left right])

/-- Whether two types are unified in some call, in one order or the other. -/
def Equates (requests : List Request) (left right : Ty) : Prop :=
  .unify left right ∈ requests ∨ .unify right left ∈ requests

theorem replay_append (requests : List Request) (request : Request) :
    replay (requests ++ [request]) = (replay requests).serve request := by
  rw [replay, foldl_append]
  rfl

theorem Succeed.sinks (succeed : Succeed requests) : (replay requests).Sinks := by
  induction succeed with
  | nil => exact fun _ _ mem => by rw [expand_of_le (Nat.zero_le _)] at mem; simp_all
  | fresh _ level ih => exact replay_append .. ▸ sinks_fresh ih level
  | unify _ left_covers right_covers success ih =>
    exact replay_append .. ▸ sinks_unify left_covers.admits right_covers.admits success ih

theorem Succeed.least (succeed : Succeed requests) : (replay requests).Least (creationLevels requests) := by
  induction succeed with
  | nil => exact least_empty
  | fresh _ level ih =>
    rw [replay_append, creationLevels, filterMap_append]
    exact ih.fresh level
  | unify _ left_covers right_covers success ih =>
    rw [replay_append, creationLevels, filterMap_append]
    exact append_nil _ ▸ ih.unify left_covers.admits right_covers.admits success

theorem solves_unify_iff (left_covers : store.Covers left) (right_covers : store.Covers right)
    (success : (store.unify left right).2 = none) :
    (store.unify left right).1.Solves solution ↔
      store.Solves solution ∧ left.substVars solution = right.substVars solution := by
  have attempt := attempt_unify left_covers.admits right_covers.admits
  constructor
  · intro solves
    refine ⟨attempt.unified.keeps.solves solves, ?_⟩
    rw [← solves.expand, attempt.equal success, solves.expand]
  · rintro ⟨solves, equal⟩
    exact (survives_unifyWithin _ store left right left_covers.admits right_covers.admits solves equal).solves

theorem Succeed.solves_iff (succeed : Succeed requests) :
    (replay requests).Solves solution ↔
      ∀ left right, .unify left right ∈ requests → left.substVars solution = right.substVars solution := by
  induction succeed with
  | nil =>
    refine ⟨fun _ _ _ mem => (nomatch mem), fun _ n _ linked => ?_⟩
    exact absurd (link?_lt linked) (Nat.not_lt_zero n)
  | fresh _ _ ih =>
    rw [replay_append]
    simpa [Solves, serve, link?_fresh] using ih
  | unify _ left_covers right_covers success ih =>
    rw [replay_append, serve, solves_unify_iff left_covers right_covers success, ih]
    simp only [mem_append, mem_singleton, Request.unify.injEq]
    grind

theorem expand_of_solves (implies : ∀ solution, later.Solves solution → store.Solves solution) (type : Ty) :
    later.expand (store.expand type) = later.expand type := by
  have solves := implies _ (later.solves_solution .var)
  have choice (type : Ty) : type.substVars (later.solution .var) = later.expand type := by
    rw [substVars_solution]
    exact Ty.subst_self _
  rw [← choice, solves.expand, choice]

theorem Least.level_eq (least : store.Least levels) (least' : later.Least levels)
    (same : ∀ solution, store.Solves solution ↔ later.Solves solution) (made : n < store.size)
    (unlinked : store.link? n = none) :
    ∃ other, later.expand (.var n) = .var other ∧ later.level other = store.level n := by
  have back := expand_of_solves fun solution => (same solution).mp
  have forth := expand_of_solves fun solution => (same solution).mpr
  have returns : store.expand (later.expand (.var n)) = .var n := by
    rw [back, expand_of_unlinked unlinked]
  obtain ⟨other, is_var⟩ : ∃ other, later.expand (.var n) = .var other := by
    cases later_type : later.expand (.var n) <;> simp_all
  rw [is_var] at returns
  have here : other ∈ (later.expand (.var n)).vars := by simp [is_var]
  have unlinked' : later.link? other = none := link?_of_mem_expand here
  have sizes : store.size = later.size := least.size.symm.trans least'.size
  have made' : other < later.size := Covers.expand (fun _ mem => mem_singleton.mp mem ▸ sizes ▸ made) other here
  refine ⟨other, is_var, (least'.level made' unlinked').unique ?_⟩
  have leads (source : Nat) : other ∈ (later.expand (.var source)).vars ↔
      n ∈ (store.expand (.var source)).vars := by
    constructor
    · intro mem
      rw [← back]
      exact mem_vars_expand.mpr ⟨other, mem, by simp [returns]⟩
    · intro mem
      rw [← forth]
      exact mem_vars_expand.mpr ⟨n, mem, by simp [is_var]⟩
  simp only [leads]
  exact least.level made unlinked

/-- After calls that all succeed, each unlinked variable has the least of the levels at which the variables
that lead to it were made; so the order of the calls and of their types does not matter, and no linked
variable has a lower level than a variable that it stands for. -/
theorem levels_least (succeed : Succeed requests) :
    (∀ n < (replay requests).size, (replay requests).link? n = none →
      IsLeast {level | ∃ source, (creationLevels requests)[source]? = some level ∧
        n ∈ ((replay requests).expand (.var source)).vars} ((replay requests).level n)) ∧
    (∀ requests', Succeed requests' → creationLevels requests' = creationLevels requests →
      (∀ left right, Equates requests' left right ↔ Equates requests left right) →
      ∀ n < (replay requests).size, (replay requests).link? n = none →
        ∃ other, (replay requests').expand (.var n) = .var other ∧
          (replay requests').level other = (replay requests).level n) ∧
    ∀ n, ∀ found ∈ ((replay requests).expand (.var n)).vars,
      (replay requests).level found ≤ (replay requests).level n := by
  refine ⟨fun n made unlinked => succeed.least.level made unlinked, ?_, succeed.sinks⟩
  intro requests' succeed' levels equations n made unlinked
  refine succeed.least.level_eq (levels ▸ succeed'.least) (fun solution => ?_) made unlinked
  have transfers {calls calls' : List Request}
      (equations : ∀ left right, Equates calls left right → Equates calls' left right)
      (solves : ∀ left right, .unify left right ∈ calls' → left.substVars solution = right.substVars solution)
      (left right : Ty) (member : .unify left right ∈ calls) :
      left.substVars solution = right.substVars solution :=
    (equations left right (.inl member)).elim (solves left right) fun flipped => (solves right left flipped).symm
  rw [succeed.solves_iff, succeed'.solves_iff]
  exact ⟨transfers fun left right => (equations left right).mp,
    transfers fun left right => (equations left right).mpr⟩

/-- A deep variable is unified with a type over a deeper one, and that with a shallow one. -/
def sunkenPair : List Request :=
  [.fresh 3, .fresh 4, .fresh 1, .unify (.var 0) (.option (.var 1)), .unify (.var 2) (.var 1)]

/-- The same equations, the last one first and with its sides exchanged. -/
def sunkenPairTurned : List Request :=
  [.fresh 3, .fresh 4, .fresh 1, .unify (.var 1) (.var 2), .unify (.var 0) (.option (.var 1))]

theorem succeed_sunkenPair : Succeed sunkenPair ∧ Succeed sunkenPairTurned := by
  have made : Succeed [.fresh 3, .fresh 4, .fresh 1] := ((Succeed.nil.fresh 3).fresh 4).fresh 1
  constructor
  · have first : Succeed ([.fresh 3, .fresh 4, .fresh 1] ++ [.unify (.var 0) (.option (.var 1))]) :=
      made.unify (missing?_eq_none.mp (by decide)) (missing?_eq_none.mp (by decide)) (by decide)
    exact first.unify (missing?_eq_none.mp (by decide)) (missing?_eq_none.mp (by decide)) (by decide)
  · have first : Succeed ([.fresh 3, .fresh 4, .fresh 1] ++ [.unify (.var 1) (.var 2)]) :=
      made.unify (missing?_eq_none.mp (by decide)) (missing?_eq_none.mp (by decide)) (by decide)
    exact first.unify (missing?_eq_none.mp (by decide)) (missing?_eq_none.mp (by decide)) (by decide)

theorem levels_least_sunkenPair :
    IsLeast {level | ∃ source, (creationLevels sunkenPair)[source]? = some level ∧
      1 ∈ ((replay sunkenPair).expand (.var source)).vars} 1 ∧
    ∃ other, (replay sunkenPairTurned).expand (.var 1) = .var other ∧
      (replay sunkenPairTurned).level other = 1 := by
  obtain ⟨succeed, succeed'⟩ := succeed_sunkenPair
  obtain ⟨least, turned, -⟩ := levels_least succeed
  have level : (replay sunkenPair).level 1 = 1 := by decide
  refine ⟨level ▸ least 1 (by decide) (by decide), ?_⟩
  rw [← level]
  exact turned sunkenPairTurned succeed' rfl (fun left right => by
    simp [Equates, sunkenPair, sunkenPairTurned]; tauto) 1 (by decide) (by decide)

end MiddleEnd.Store
