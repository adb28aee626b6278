import MiddleEnd.Proofs.Ty.Bind

/-! Unification step by step: which variables it may link, what it does to levels, and that a
successful attempt leaves the two types with one expansion. -/

namespace MiddleEnd

open List

variable {store later : Store} {type part : Ty} {n : Nat} {clash : Clash} {left right : Ty}
  {reason : Reason} {joint : Step × Ty × Ty} {change : Ty → Ty} {outcome : Store × Option Clash}

def Reason.Shown (store : Store) : Reason → Prop
  | .mismatch left right => store.Covers left ∧ store.Covers right
  | .arity _ _ _ left right => store.Covers left ∧ store.Covers right
  | .occurs _ type => store.Covers type
  | .missing _ => False
  | .endless => True

theorem Reason.Shown.after (shown : reason.Shown store) (keeps : store.Keeps later) :
    reason.Shown later := by
  cases reason with
  | mismatch _ _ => exact shown.imp keeps.covers keeps.covers
  | arity _ _ _ _ _ => exact shown.imp keeps.covers keeps.covers
  | occurs _ _ => exact keeps.covers shown
  | missing _ => exact shown
  | endless => trivial

def Reason.told (store : Store) : Reason → Option Problem
  | .mismatch left right => some (.mismatch (store.display left) (store.display right))
  | .arity shape leftCount rightCount left right =>
    some (.arity shape leftCount rightCount (store.display left) (store.display right))
  | .occurs n type => some (.occurs (Ty.var n).print (store.display type))
  | .missing _ | .endless => none

theorem Store.displayChecked_of_covers (covers : store.Covers type) :
    store.displayChecked type = .ok (store.display type) := by
  rw [displayChecked, check, missing?_eq_none.mpr covers]
  rfl

theorem Reason.Shown.problem (shown : reason.Shown store) (ends : reason ≠ .endless) :
    ∃ problem, reason.told store = some problem ∧ reason.problem store = .ok problem := by
  cases reason with
  | mismatch _ _ | arity _ _ _ _ _ =>
    refine ⟨_, rfl, ?_⟩
    rw [Reason.problem, Store.displayChecked_of_covers shown.1, Store.displayChecked_of_covers shown.2]
    rfl
  | occurs _ _ =>
    refine ⟨_, rfl, ?_⟩
    rw [Reason.problem, Store.displayChecked_of_covers shown]
    rfl
  | missing _ => exact shown.elim
  | endless => exact absurd rfl ends

theorem Reason.Shown.explain (shown : clash.reason.Shown store) (ends : clash.reason ≠ .endless)
    (left_covers : store.Covers left) (right_covers : store.Covers right) :
    ∃ problem, clash.reason.told store = some problem ∧
      clash.explain store left right = .ok (problem, clash.path.map Step.note ++
        [s!"while unifying '{store.display left}' and '{store.display right}'"]) := by
  obtain ⟨problem, is_told, told⟩ := shown.problem ends
  refine ⟨problem, is_told, ?_⟩
  rw [Clash.explain, told, Store.displayChecked_of_covers left_covers,
    Store.displayChecked_of_covers right_covers]
  rfl
namespace Ty

theorem children_induction {motive : Ty → Prop}
    (step : ∀ type : Ty, (∀ part ∈ type.children, motive part) → motive type) (type : Ty) :
    motive type := by
  induction type with
  | function _ _ params_ih result_ih =>
    refine step _ fun part mem => ?_
    rcases mem_append.mp mem with in_params | is_result
    · exact params_ih part in_params
    · exact mem_singleton.mp is_result ▸ result_ih
  | tuple _ ih => exact step _ ih
  | app _ _ ih => exact step _ fun part mem => mem_singleton.mp mem ▸ ih
  | _ => exact step _ fun part mem => nomatch mem

theorem vars_eq_children (head : ∀ n, type ≠ .var n) : type.vars = type.children.flatMap vars := by
  cases type with
  | var n => exact absurd rfl (head n)
  | _ => simp [children]

theorem children_mapChildren (type : Ty) (change : Ty → Ty) :
    (type.mapChildren change).children = type.children.map change := by
  cases type <;> simp [children, mapChildren]

theorem ne_var_of_child (mem : part ∈ type.children) (n : Nat) : type ≠ .var n := by
  rintro rfl
  cases mem

theorem mem_vars_of_child (mem : part ∈ type.children) (here : n ∈ part.vars) : n ∈ type.vars := by
  rw [vars_eq_children (ne_var_of_child mem)]
  exact mem_flatMap_of_mem mem here

theorem mem_generics_of_child (mem : part ∈ type.children) (here : n ∈ part.generics) :
    n ∈ type.generics := by
  cases type with
  | function _ _ =>
    rw [generics_function, ← flatMap_singleton (f := generics), ← flatMap_append]
    exact mem_flatMap_of_mem mem here
  | tuple elements => exact generics_tuple elements ▸ mem_flatMap_of_mem mem here
  | app _ _ => exact mem_singleton.mp mem ▸ here
  | _ => cases mem

def joints : Ty → Ty → List (Step × Ty × Ty) × Option Clash
  | .function params result, .function params' result' =>
    if params.length = params'.length then
      ((.result, result, result') :: ((params.zip params').zipIdx).map
        (fun (pair, index) => (.parameter index, pair)), none)
    else
      ([(.result, result, result')], some ⟨.arity .function params.length params'.length
        (.function params result) (.function params' result'), []⟩)
  | .tuple elements, .tuple elements' =>
    if elements.length = elements'.length then
      (((elements.zip elements').zipIdx).map (fun (pair, index) => (.element index, pair)), none)
    else
      ([], some ⟨.arity .tuple elements.length elements'.length (.tuple elements) (.tuple elements'), []⟩)
  | .app con element, .app con' element' =>
    if con = con' then ([(.content con, element, element')], none)
    else ([], some ⟨.mismatch (.app con element) (.app con' element'), []⟩)
  | left, right => ([], some ⟨.mismatch left right, []⟩)

theorem mem_indexed {step : Nat → Step} {pairs : List (Ty × Ty)} {index : Nat}
    (mem : joint ∈ (pairs.zipIdx index).map fun (pair, index) => (step index, pair)) :
    joint.2 ∈ pairs := by
  obtain ⟨⟨pair, index⟩, there, rfl⟩ := mem_map.mp mem
  exact fst_mem_of_mem_zipIdx there

theorem children_of_joint (mem : joint ∈ (left.joints right).1) :
    joint.2.1 ∈ left.children ∧ joint.2.2 ∈ right.children := by
  unfold joints at mem
  split at mem
  · split at mem
    · rcases mem_cons.mp mem with rfl | mem
      · simp [children]
      · have inside := of_mem_zip (mem_indexed mem)
        simp [children, inside.1, inside.2]
    · simp_all [children]
  · split at mem
    · exact of_mem_zip (mem_indexed mem)
    · cases mem
  · split at mem
    · simp_all [children]
    · cases mem
  · cases mem

theorem reason_of_joints (verdict : (left.joints right).2 = some clash) :
    clash.reason = .mismatch left right ∨
      ∃ shape count count', clash.reason = .arity shape count count' left right := by
  unfold joints at verdict
  grind

theorem map_eq_iff_indexed (step : Nat → Step) {left right : List Ty}
    (length : left.length = right.length) (index : Nat) :
    left.map change = right.map change ↔
      ∀ joint ∈ ((left.zip right).zipIdx index).map (fun (pair, index) => (step index, pair)),
        change joint.2.1 = change joint.2.2 := by
  induction left generalizing right index with
  | nil =>
    cases right with
    | nil => simp
    | cons _ _ => simp at length
  | cons _ _ ih =>
    cases right with
    | nil => simp at length
    | cons _ _ =>
      rw [map_cons, map_cons, List.cons.injEq, ih (by simpa using length) (index + 1)]
      simp [zipIdx_cons]

theorem mapChildren_eq_iff (differs : left ≠ right) :
    left.mapChildren change = right.mapChildren change ↔
      (left.joints right).2 = none ∧
        ∀ joint ∈ (left.joints right).1, change joint.2.1 = change joint.2.2 := by
  cases left with
  | function params _ =>
    cases right with
    | function params' _ =>
      rw [joints, mapChildren, mapChildren, function.injEq]
      split
      · next length => simp [map_eq_iff_indexed .parameter length 0, and_comm]
      · next length =>
        have apart : params.map change ≠ params'.map change := fun equal =>
          length (by simpa using congrArg List.length equal)
        simp [apart]
    | _ => simp [mapChildren, joints]
  | tuple elements =>
    cases right with
    | tuple elements' =>
      rw [joints, mapChildren, mapChildren, tuple.injEq]
      split
      · next length => simp [map_eq_iff_indexed .element length 0]
      · next length =>
        have apart : elements.map change ≠ elements'.map change := fun equal =>
          length (by simpa using congrArg List.length equal)
        simp [apart]
    | _ => simp [mapChildren, joints]
  | app _ _ => 
    cases right with
    | app _ _ =>
      rw [joints, mapChildren, mapChildren, app.injEq]
      split <;> simp_all
    | _ => simp [mapChildren, joints]
  | _ => cases right <;> simp_all [mapChildren, joints]

end Ty

namespace Store

variable {allowed rigid : Nat → Prop}

structure Admits (store : Store) (allowed rigid : Nat → Prop) (type : Ty) : Prop where
  covers : store.Covers type
  vars : ∀ n ∈ (store.expand type).vars, allowed n
  generics : ∀ n ∈ (store.expand type).generics, rigid n

theorem Covers.admits (covers : store.Covers type) : store.Admits (fun _ => True) (fun _ => True) type :=
  ⟨covers, fun _ _ => trivial, fun _ _ => trivial⟩

structure Unified (allowed rigid : Nat → Prop) (store later : Store) : Prop where
  keeps : store.Keeps later
  size_eq : later.size = store.size
  isGeneralized (n : Nat) : later.isGeneralized n = store.isGeneralized n
  level_le (n : Nat) : later.level n ≤ store.level n
  /-- A variable takes what it is linked to down to its own level. -/
  levels {n : Nat} (unlinked : store.link? n = none) :
    ∀ found ∈ (later.expand (.var n)).vars, later.level found ≤ store.level n
  touched {n : Nat} (unlinked : store.link? n = none) (linked : later.link? n ≠ none) :
    allowed n
  admits {type : Ty} (admits : store.Admits allowed rigid type) : later.Admits allowed rigid type

theorem Unified.refl (store : Store) : store.Unified allowed rigid store where
  keeps := .refl store
  size_eq := rfl
  isGeneralized _ := rfl
  level_le _ := Nat.le_refl _
  levels unlinked found mem := by
    rw [expand_of_unlinked unlinked] at mem
    obtain rfl : found = _ := by simpa using mem
    exact Nat.le_refl _
  touched unlinked linked := absurd unlinked linked
  admits := id

theorem Unified.trans {first second third : Store} (left : first.Unified allowed rigid second)
    (right : second.Unified allowed rigid third) : first.Unified allowed rigid third where
  keeps := left.keeps.trans right.keeps
  size_eq := right.size_eq.trans left.size_eq
  isGeneralized n := (right.isGeneralized n).trans (left.isGeneralized n)
  level_le n := Nat.le_trans (right.level_le n) (left.level_le n)
  levels unlinked found mem := by
    obtain ⟨between, there, mem⟩ := right.keeps.mem_vars_expand.mp mem
    exact Nat.le_trans (right.levels (link?_of_mem_expand there) found mem)
      (left.levels unlinked between there)
  touched {n} unlinked linked := by
    cases between : second.link? n with
    | none => exact right.touched between linked
    | some type => exact left.touched unlinked (by rw [between]; exact Option.some_ne_none type)
  admits admits := right.admits (left.admits admits)

theorem Unified.of_lowers (lowers : store.Lowers later) : store.Unified allowed rigid later where
  keeps := lowers.sameLinks.keeps
  size_eq := lowers.sameLinks.1
  isGeneralized := lowers.isGeneralized
  level_le := lowers.level_le
  levels {n} unlinked found mem := by
    rw [lowers.sameLinks.expand, expand_of_unlinked unlinked] at mem
    obtain rfl : found = n := by simpa using mem
    exact lowers.level_le found
  touched {n} unlinked linked := absurd ((lowers.sameLinks.2 n).trans unlinked) linked
  admits {type} admits := by
    refine ⟨lowers.sameLinks.keeps.covers admits.covers, ?_, ?_⟩
    · rw [lowers.sameLinks.expand]
      exact admits.vars
    · rw [lowers.sameLinks.expand]
      exact admits.generics

theorem Unified.setLink (avoids : store.Avoids type n) (made : n < store.size)
    (unlinked : store.link? n = none) (fits : allowed n)
    (type_admits : store.Admits allowed rigid type)
    (lowered : ∀ found ∈ (store.expand type).vars, store.level found ≤ store.level n) :
    store.Unified allowed rigid (store.setLink n type avoids) where
  keeps := keeps_setLink avoids made unlinked
  size_eq := size_setLink
  isGeneralized := isGeneralized_setLink
  level_le other := Nat.le_of_eq (level_setLink other)
  levels {other} free found mem := by
    rw [expand_setLink avoids made unlinked, expand_of_unlinked free, Ty.substVars, Ty.subst_var] at mem
    rw [level_setLink]
    split at mem
    · next same => exact same ▸ lowered found mem
    · obtain rfl : found = other := by simpa using mem
      exact Nat.le_refl _
  touched {other} free linked := by
    rw [link?_setLink made] at linked
    split at linked
    · next same => exact same ▸ fits
    · exact absurd free linked
  admits {other} admits := by
    refine ⟨(keeps_setLink avoids made unlinked).covers admits.covers, ?_, ?_⟩
    · intro found mem
      rw [expand_setLink avoids made unlinked, Ty.substVars, Ty.mem_vars_subst] at mem
      obtain ⟨between, there, mem⟩ | ⟨between, -, mem⟩ := mem
      · split at mem
        · exact type_admits.vars found mem
        · obtain rfl : found = between := by simpa using mem
          exact admits.vars found there
      · simp at mem
    · intro found mem
      rw [expand_setLink avoids made unlinked, Ty.substVars, Ty.mem_generics_subst] at mem
      obtain ⟨between, -, mem⟩ | ⟨between, there, mem⟩ := mem
      · split at mem
        · exact type_admits.generics found mem
        · simp at mem
      · obtain rfl : found = between := by simpa using mem
        exact admits.generics found there

structure Attempt (allowed rigid : Nat → Prop) (store : Store) (left right : Ty)
    (outcome : Store × Option Clash) : Prop where
  unified : store.Unified allowed rigid outcome.1
  equal (success : outcome.2 = none) : outcome.1.expand left = outcome.1.expand right
  shown {clash : Clash} (failure : outcome.2 = some clash) : clash.reason.Shown outcome.1

theorem Attempt.symm (attempt : Attempt allowed rigid store left right outcome) :
    Attempt allowed rigid store right left outcome :=
  ⟨attempt.unified, fun success => (attempt.equal success).symm, attempt.shown⟩

theorem Attempt.of_expand (left' right' : Ty)
    (attempt : Attempt allowed rigid store left' right' outcome)
    (same_left : store.expand left' = store.expand left)
    (same_right : store.expand right' = store.expand right) :
    Attempt allowed rigid store left right outcome := by
  refine ⟨attempt.unified, fun success => ?_, attempt.shown⟩
  rw [← attempt.unified.keeps.expand_eq same_left, ← attempt.unified.keeps.expand_eq same_right]
  exact attempt.equal success

theorem Attempt.shown_under {between : Store}
    (attempt : Attempt allowed rigid store left right (between, some clash)) (step : Step)
    {clash' : Clash} (failure : some (clash.under step) = some clash') :
    clash'.reason.Shown between := by
  obtain rfl := Option.some.inj failure
  exact @Attempt.shown _ _ _ _ _ _ attempt clash rfl

theorem Attempt.failed (shown : clash.reason.Shown store) :
    Attempt allowed rigid store left right (store, some clash) where
  unified := .refl store
  equal impossible := nomatch impossible
  shown failure := Option.some.inj failure ▸ shown

theorem attempt_bind (unlinked : store.link? n = none)
    (number_admits : store.Admits allowed rigid (.var n))
    (type_admits : store.Admits allowed rigid type) :
    Attempt allowed rigid store (.var n) type (store.bind n type) := by
  have made : n < store.size := number_admits.covers n (by simp)
  have fits : allowed n := number_admits.vars n (by rw [expand_of_unlinked unlinked]; simp)
  obtain ⟨lowers, lowered⟩ := store.occurs_lowers n type
  have searched : store.Unified allowed rigid (store.occurs n type).2 := .of_lowers lowers
  have unlinked' : (store.occurs n type).2.link? n = none :=
    (lowers.sameLinks.2 n).trans unlinked
  have made' : n < (store.occurs n type).2.size := lowers.sameLinks.1 ▸ made
  rw [bind]
  split
  · next missing found =>
    rw [missing?_eq_none.mpr type_admits.covers] at found
    cases found
  · next none_missing =>
    dsimp only
    split
    · next apart =>
      have avoids := avoids_of_occurs none_missing apart
      have linked : Unified allowed rigid (store.occurs n type).2
          ((store.occurs n type).2.setLink n type avoids) := by
        refine .setLink avoids made' unlinked' fits (searched.admits type_admits) fun found mem => ?_
        rw [lowers.sameLinks.expand] at mem
        refine Nat.le_trans (lowered apart found mem) (Nat.le_of_eq ?_)
        exact (store.sought_occurs n type).level_self.symm
      refine ⟨searched.trans linked, fun _ => ?_, fun failure => nomatch failure⟩
      exact expand_of_linked (by rw [link?_setLink made', if_pos rfl])
    · refine ⟨searched, fun impossible => (nomatch impossible), fun failure => ?_⟩
      obtain rfl := Option.some.inj failure
      exact lowers.sameLinks.keeps.covers type_admits.covers

/-! ### Parts of types -/

theorem Admits.resolve (admits : store.Admits allowed rigid type) :
    store.Admits allowed rigid (store.resolve type) := by
  refine ⟨admits.covers.resolve, ?_, ?_⟩
  · rw [expand_resolve]
    exact admits.vars
  · rw [expand_resolve]
    exact admits.generics

theorem expand_eq_mapChildren {head : Ty} (free : ∀ n, head = .var n → store.link? n = none) :
    store.expand head = head.mapChildren store.expand := by
  cases head with
  | var n => exact expand_of_unlinked (free n rfl)
  | _ => simp [Ty.mapChildren]

theorem expand_child (mem : part ∈ type.children) :
    store.expand part ∈ (store.expand type).children := by
  rw [expand_eq_mapChildren fun n is_var => absurd is_var (Ty.ne_var_of_child mem n),
    Ty.children_mapChildren]
  exact mem_map_of_mem mem

theorem Admits.child (admits : store.Admits allowed rigid type) (mem : part ∈ type.children) :
    store.Admits allowed rigid part where
  covers n here := admits.covers n (Ty.mem_vars_of_child mem here)
  vars n here := admits.vars n (Ty.mem_vars_of_child (expand_child mem) here)
  generics n here := admits.generics n (Ty.mem_generics_of_child (expand_child mem) here)

theorem missingHead?_eq_none (covers : store.Covers type) : store.missingHead? type = none := by
  cases type with
  | var n =>
    have made := covers n (by simp)
    rw [missingHead?, if_neg (by omega)]
  | _ => rfl

/-! ### The algorithm -/

def unifyInTurn (unify : Store → Ty → Ty → Store × Option Clash) (verdict : Option Clash) :
    List (Step × Ty × Ty) → Store → Store × Option Clash
  | [], store => (store, verdict)
  | (step, left, right) :: parts, store =>
    match unify store left right with
    | (store, none) => unifyInTurn unify verdict parts store
    | (store, some clash) => (store, some (clash.under step))

theorem unifyPairs_eq (unify : Store → Ty → Ty → Store × Option Clash) (step : Nat → Step) (index : Nat)
    (pairs : List (Ty × Ty)) (store : Store) :
    unifyPairs unify step index pairs store =
      unifyInTurn unify none ((pairs.zipIdx index).map fun (pair, index) => (step index, pair)) store := by
  induction pairs generalizing index store with
  | nil => rfl
  | cons pair _ ih =>
    obtain ⟨left, right⟩ := pair
    rw [unifyPairs, zipIdx_cons, map_cons, unifyInTurn]
    rcases unify store left right with ⟨later, _ | clash⟩
    · exact ih (index + 1) later
    · rfl

theorem unifyWithin_succ (fuel : Nat) (left_covers : store.Covers left)
    (right_covers : store.Covers right) :
    unifyWithin (fuel + 1) store left right =
      if store.resolve left = store.resolve right then (store, none)
      else
        match store.resolve left, store.resolve right with
        | .var n, type => store.bind n type
        | type, .var n => store.bind n type
        | type, type' => unifyInTurn (unifyWithin fuel) (type.joints type').2 (type.joints type').1 store := by
  rw [unifyWithin]
  simp only [missingHead?_eq_none left_covers.resolve, missingHead?_eq_none right_covers.resolve,
    Option.orElse_eq_orElse, Option.orElse_none, unifyPairs_eq]
  generalize store.resolve left = type
  generalize store.resolve right = type'
  split
  · rfl
  · cases type with
    | function _ _ =>
      cases type' with
      | function _ _ =>
        simp only [Ty.joints]
        split
        · next outcome => split <;> simp only [unifyInTurn, outcome]
        · next outcome => split <;> simp only [unifyInTurn, outcome]
      | _ => rfl
    | tuple _ =>
      cases type' with
      | tuple _ =>
        simp only [Ty.joints]
        split <;> rfl
      | _ => rfl
    | app _ _ =>
      cases type' with
      | app _ _ =>
        simp only [Ty.joints]
        split
        · simp only [unifyInTurn]
          split
          · next outcome => simp only [outcome]
          · next outcome => simp only [outcome]
        · rfl
      | _ => rfl
    | _ => cases type' <;> rfl

theorem shown_joints (left_covers : store.Covers left) (right_covers : store.Covers right)
    (verdict : (left.joints right).2 = some clash) :
    clash.reason.Shown store := by
  rcases Ty.reason_of_joints verdict with reason | ⟨_, _, _, reason⟩ <;> rw [reason]
  · exact ⟨left_covers, right_covers⟩
  · exact ⟨left_covers, right_covers⟩

structure AttemptAll (allowed rigid : Nat → Prop) (verdict : Option Clash) (store : Store)
    (parts : List (Step × Ty × Ty)) (outcome : Store × Option Clash) : Prop where
  unified : store.Unified allowed rigid outcome.1
  equal (success : outcome.2 = none) :
    verdict = none ∧ ∀ joint ∈ parts, outcome.1.expand joint.2.1 = outcome.1.expand joint.2.2
  shown {clash : Clash} (failure : outcome.2 = some clash) : clash.reason.Shown outcome.1

structure Traced (allowed rigid : Nat → Prop)
    (unified : Nat → Store → Ty → Ty → Store × Option Clash → Prop)
    (inTurn : Nat → Option Clash → Store → List (Step × Ty × Ty) → Store × Option Clash → Prop) : Prop where
  endless (store : Store) (left right : Ty) : unified 0 store left right (store, some ⟨.endless, []⟩)
  same {fuel : Nat} {store : Store} {left right : Ty} (heads : store.resolve left = store.resolve right) :
    unified (fuel + 1) store left right (store, none)
  left {fuel : Nat} {store : Store} {left right type : Ty} {n : Nat}
    (left_head : store.resolve left = .var n) (right_head : store.resolve right = type)
    (differs : .var n ≠ type) (number_admits : store.Admits allowed rigid (.var n))
    (type_admits : store.Admits allowed rigid type) :
    unified (fuel + 1) store left right (store.bind n type)
  right {fuel : Nat} {store : Store} {left right type : Ty} {n : Nat}
    (left_head : store.resolve left = type) (right_head : store.resolve right = .var n)
    (compound : ∀ n, type ≠ .var n) (number_admits : store.Admits allowed rigid (.var n))
    (type_admits : store.Admits allowed rigid type) :
    unified (fuel + 1) store left right (store.bind n type)
  parts {fuel : Nat} {store : Store} {left right type type' : Ty} {outcome : Store × Option Clash}
    (left_head : store.resolve left = type) (right_head : store.resolve right = type')
    (differs : type ≠ type') (compound : ∀ n, type ≠ .var n)
    (compound' : ∀ n, type' ≠ .var n)
    (turns : inTurn fuel (type.joints type').2 store (type.joints type').1 outcome) :
    unified (fuel + 1) store left right outcome
  done {fuel : Nat} {verdict : Option Clash} {store : Store} : inTurn fuel verdict store [] (store, verdict)
  next {fuel : Nat} {verdict : Option Clash} {store between : Store} {step : Step} {left right : Ty}
    {parts : List (Step × Ty × Ty)} {outcome : Store × Option Clash}
    (changed : store.Unified allowed rigid between) (first : unified fuel store left right (between, none))
    (rest : inTurn fuel verdict between parts outcome) :
    inTurn fuel verdict store ((step, left, right) :: parts) outcome
  fails {fuel : Nat} {verdict : Option Clash} {store later : Store} {step : Step} {left right : Ty}
    {parts : List (Step × Ty × Ty)} {clash : Clash}
    (first : unified fuel store left right (later, some clash)) :
    inTurn fuel verdict store ((step, left, right) :: parts) (later, some (clash.under step))

section Induction

variable {unified : Nat → Store → Ty → Ty → Store × Option Clash → Prop}
  {inTurn : Nat → Option Clash → Store → List (Step × Ty × Ty) → Store × Option Clash → Prop}

section

variable (traced : Traced allowed rigid unified inTurn)
include traced

theorem Traced.run_inTurn {fuel : Nat}
    (run : ∀ (store : Store) (left right : Ty), store.Admits allowed rigid left →
      store.Admits allowed rigid right →
      Attempt allowed rigid store left right (unifyWithin fuel store left right) ∧
        unified fuel store left right (unifyWithin fuel store left right))
    (verdict : Option Clash) (parts : List (Step × Ty × Ty)) (store : Store)
    (admits : ∀ joint ∈ parts, store.Admits allowed rigid joint.2.1 ∧ store.Admits allowed rigid joint.2.2)
    (shown : ∀ clash, verdict = some clash → clash.reason.Shown store) :
    AttemptAll allowed rigid verdict store parts (unifyInTurn (unifyWithin fuel) verdict parts store) ∧
      inTurn fuel verdict store parts (unifyInTurn (unifyWithin fuel) verdict parts store) := by
  induction parts generalizing store with
  | nil => exact ⟨⟨.refl store, fun success => ⟨success, fun _ mem => nomatch mem⟩, shown _⟩, traced.done⟩
  | cons joint _ ih =>
    obtain ⟨step, left, right⟩ := joint
    obtain ⟨left_admits, right_admits⟩ := admits _ (.head _)
    obtain ⟨first, holds⟩ := run store left right left_admits right_admits
    rw [unifyInTurn]
    split
    · next between outcome =>
      rw [outcome] at first holds
      obtain ⟨rest, rest_holds⟩ := ih between (fun joint mem =>
        (admits joint (.tail _ mem)).imp first.unified.admits first.unified.admits)
        fun clash is_verdict => (shown clash is_verdict).after first.unified.keeps
      refine ⟨⟨first.unified.trans rest.unified, fun success => ⟨(rest.equal success).1, ?_⟩, rest.shown⟩,
        traced.next first.unified holds rest_holds⟩
      rw [forall_mem_cons]
      exact ⟨rest.unified.keeps.expand_eq (first.equal rfl), (rest.equal success).2⟩
    · next between clash outcome =>
      rw [outcome] at first holds
      exact ⟨⟨first.unified, fun impossible => (nomatch impossible), first.shown_under step⟩,
        traced.fails holds⟩

theorem Traced.attempt_and_run (fuel : Nat) (store : Store)
    (left right : Ty) (left_admits : store.Admits allowed rigid left)
    (right_admits : store.Admits allowed rigid right) :
    Attempt allowed rigid store left right (unifyWithin fuel store left right) ∧
      unified fuel store left right (unifyWithin fuel store left right) := by
  induction fuel generalizing store left right with
  | zero => exact ⟨.failed trivial, traced.endless store left right⟩
  | succ fuel ih =>
    have left_head := left_admits.resolve
    have right_head := right_admits.resolve
    have of_heads {outcome : Store × Option Clash}
        (attempt : Attempt allowed rigid store (store.resolve left) (store.resolve right) outcome) :
        Attempt allowed rigid store left right outcome :=
      attempt.of_expand _ _ (store.expand_resolve left) (store.expand_resolve right)
    rw [unifyWithin_succ fuel left_admits.covers right_admits.covers]
    generalize left_eq : store.resolve left = left' at left_head of_heads ⊢
    generalize right_eq : store.resolve right = right' at right_head of_heads ⊢
    split
    · next same =>
      exact ⟨of_heads ⟨.refl store, fun _ => congrArg store.expand same, by simp⟩,
        traced.same (left_eq.trans (same.trans right_eq.symm))⟩
    · next differs =>
      split
      · exact ⟨of_heads (attempt_bind (resolve_eq_var left_eq) left_head right_head),
          traced.left left_eq right_eq differs left_head right_head⟩
      · next compound =>
        exact ⟨of_heads (attempt_bind (resolve_eq_var right_eq) right_head left_head).symm,
          traced.right left_eq right_eq compound right_head left_head⟩
      · next compound compound' =>
        obtain ⟨turns, holds⟩ := traced.run_inTurn ih (left'.joints right').2 (left'.joints right').1 store
          (fun _ mem => (Ty.children_of_joint mem).imp left_head.child right_head.child)
          fun _ => shown_joints left_head.covers right_head.covers
        refine ⟨of_heads ⟨turns.unified, fun success => ?_, turns.shown⟩,
          traced.parts left_eq right_eq differs compound compound' holds⟩
        rw [expand_eq_mapChildren fun n is_var => absurd is_var (compound n),
          expand_eq_mapChildren fun n is_var => absurd is_var (compound' n)]
        exact (Ty.mapChildren_eq_iff differs).mpr (turns.equal success)

theorem Traced.run (fuel : Nat) (store : Store)
    (left right : Ty) (left_admits : store.Admits allowed rigid left)
    (right_admits : store.Admits allowed rigid right) :
    unified fuel store left right (unifyWithin fuel store left right) :=
  (traced.attempt_and_run fuel store left right left_admits right_admits).2

end

end Induction

theorem attempt_unifyWithin (fuel : Nat) (store : Store) (left right : Ty)
    (left_admits : store.Admits allowed rigid left) (right_admits : store.Admits allowed rigid right) :
    Attempt allowed rigid store left right (unifyWithin fuel store left right) := by
  have traced : Traced allowed rigid (fun _ _ _ _ _ => True) fun _ _ _ _ _ => True := by
    constructor <;> intros <;> trivial
  exact (traced.attempt_and_run fuel store left right left_admits right_admits).1

end Store

end MiddleEnd
