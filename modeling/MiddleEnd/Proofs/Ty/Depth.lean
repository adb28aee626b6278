import MiddleEnd.Proofs.Ty.Unify

/-! The bound on the depth of unification is never reached. Links are made of parts of the types that
are unified, so no link gets higher than those types and the links before. -/

namespace MiddleEnd

open List

variable {bound : Nat} {type : Ty} {clash : Clash} {types : List Ty} {part left right : Ty}
  {depth : Nat}

namespace Ty

theorem heightOf_le_iff : heightOf types ≤ bound ↔ ∀ type ∈ types, type.height ≤ bound := by
  induction types with
  | nil => simp [heightOf]
  | cons _ _ ih => rw [heightOf, Nat.max_le, ih, forall_mem_cons]

theorem height_le_heightOf (mem : type ∈ types) : type.height ≤ heightOf types :=
  heightOf_le_iff.mp (Nat.le_refl _) type mem

theorem height_lt_of_child (mem : part ∈ type.children) : part.height < type.height := by
  cases type with
  | function _ _ =>
    rw [height]
    rcases mem_append.mp mem with in_params | is_result
    · have below := height_le_heightOf in_params
      omega
    · rw [mem_singleton.mp is_result]
      omega
  | tuple _ => exact Nat.lt_succ_of_le (height_le_heightOf mem)
  | app _ _ =>
    rw [mem_singleton.mp mem, height]
    omega
  | _ => cases mem

theorem height_substVars_le {var : Nat → Ty} (small : ∀ n ∈ type.vars, (var n).height ≤ bound) :
    (type.substVars var).height ≤ type.height + bound := by
  induction type with
  | prim _ => simp [substVars, height]
  | function params _ params_ih result_ih =>
    rw [substVars, subst_function, height, height]
    have on_params : heightOf (params.map (subst var .generic)) ≤ heightOf params + bound := by
      rw [heightOf_le_iff]
      intro _ mem
      obtain ⟨param, there, rfl⟩ := mem_map.mp mem
      have small' := params_ih param there fun n here =>
        small n (by simp; exact .inl ⟨param, there, here⟩)
      have below := height_le_heightOf there
      rw [substVars] at small'
      omega
    have on_result := result_ih fun n here => small n (by simp [here])
    rw [substVars] at on_result
    omega
  | tuple elements ih =>
    rw [substVars, subst_tuple, height, height]
    have on_elements : heightOf (elements.map (subst var .generic)) ≤ heightOf elements + bound := by
      rw [heightOf_le_iff]
      intro _ mem
      obtain ⟨element, there, rfl⟩ := mem_map.mp mem
      have small' := ih element there fun n here =>
        small n (by simp; exact ⟨element, there, here⟩)
      have below := height_le_heightOf there
      rw [substVars] at small'
      omega
    omega
  | app _ _ ih =>
    have on_element := ih small
    rw [substVars] at on_element ⊢
    rw [subst_app, height, height]
    omega
  | var n =>
    have here := small n (by simp)
    simpa [substVars, height] using here
  | generic _ => simp [substVars, height]

end Ty

namespace Store

variable {store later : Store} {allowed rigid : Nat → Prop}

def LinksWithin (store : Store) (bound : Nat) : Prop :=
  ∀ n type, store.link? n = some type → type.height ≤ bound

theorem height_expandWithin_le (links : store.LinksWithin bound) (fuel : Nat)
    (small : type.height ≤ bound) : (store.expandWithin fuel type).height ≤ (fuel + 1) * bound := by
  induction fuel generalizing type with
  | zero => simpa [expandWithin] using small
  | succ fuel ih =>
    rw [expandWithin]
    calc
      _ ≤ type.height + (fuel + 1) * bound := by
        refine Ty.height_substVars_le fun n _ => ?_
        split
        · next target linked => exact ih (links n target linked)
        · simp [Ty.height]
      _ ≤ bound + (fuel + 1) * bound := Nat.add_le_add_right small _
      _ = (fuel + 1 + 1) * bound := by rw [Nat.add_mul (fuel + 1) 1 bound]; omega

theorem height_expand_le (links : store.LinksWithin bound) (small : type.height ≤ bound) :
    (store.expand type).height ≤ (store.size + 2) * bound :=
  height_expandWithin_le links _ small

theorem height_chase_le (links : store.LinksWithin bound) (fuel : Nat) (small : type.height ≤ bound) :
    (store.chase fuel type).height ≤ bound := by
  induction fuel generalizing type with
  | zero => exact small
  | succ _ ih =>
    cases type with
    | var n =>
      rw [chase]
      split
      · next target linked => exact ih (links n target linked)
      · exact small
    | _ => exact small

theorem SameLinks.linksWithin (same : store.SameLinks later) (links : store.LinksWithin bound) :
    later.LinksWithin bound :=
  fun n type linked => links n type ((same.2 n).symm.trans linked)

structure Shallow (bound : Nat) (outcome : Store × Option Clash) : Prop where
  links : outcome.1.LinksWithin bound
  ends {clash : Clash} (failure : outcome.2 = some clash) : clash.reason ≠ .endless

theorem Shallow.failed (links : store.LinksWithin bound) (ends : clash.reason ≠ .endless) :
    Shallow bound (store, some clash) :=
  ⟨links, fun failure => Option.some.inj failure ▸ ends⟩

theorem Shallow.ends_under {between : Store} (step : Step)
    (shallow : Shallow bound (between, some clash)) {clash' : Clash}
    (failure : some (clash.under step) = some clash') : clash'.reason ≠ .endless := by
  obtain rfl := Option.some.inj failure
  exact @Shallow.ends _ _ shallow clash rfl

theorem shallow_bind {n : Nat} (links : store.LinksWithin bound) (made : n < store.size)
    (small : type.height ≤ bound) :
    Shallow bound (store.bind n type) := by
  have same := store.occurs_sameLinks n type
  rw [bind]
  split
  · exact .failed links (by simp)
  · dsimp only
    split
    · refine ⟨fun other target linked => ?_, by simp⟩
      rw [link?_setLink (same.1 ▸ made)] at linked
      split at linked
      · exact Option.some.inj linked ▸ small
      · exact same.linksWithin links other target linked
    · exact .failed (same.linksWithin links) (by simp)

def Below (store : Store) (bound depth : Nat) (type : Ty) : Prop :=
  ∀ later, store.Keeps later → later.size = store.size → later.LinksWithin bound →
    (later.expand type).height < depth

theorem Below.after (below : store.Below bound depth type) (unified : store.Unified allowed rigid later) :
    later.Below bound depth type :=
  fun next keeps size links =>
    below next (unified.keeps.trans keeps) (size.trans unified.size_eq) links

theorem Below.of_expand {type' : Ty} (below : store.Below bound depth type)
    (same : store.expand type' = store.expand type) : store.Below bound depth type' := by
  intro later keeps size links
  rw [keeps.expand_eq same]
  exact below later keeps size links

theorem Below.child (below : store.Below bound (depth + 1) type) (mem : part ∈ type.children) :
    store.Below bound depth part := by
  intro later keeps size links
  have whole := below later keeps size links
  have inside := Ty.height_lt_of_child (later.expand_child mem)
  omega

theorem traced_shallow (allowed rigid : Nat → Prop) (bound : Nat) : Traced allowed rigid
    (fun depth store left right outcome => store.LinksWithin bound → left.height ≤ bound →
      right.height ≤ bound → store.Below bound depth left → Shallow bound outcome)
    (fun depth verdict store parts outcome => (∀ clash, verdict = some clash → clash.reason ≠ .endless) →
      store.LinksWithin bound → (∀ joint ∈ parts, joint.2.1.height ≤ bound ∧ joint.2.2.height ≤ bound) →
      (∀ joint ∈ parts, store.Below bound depth joint.2.1) → Shallow bound outcome) where
  endless store left right links _ _ below :=
    absurd (below store (.refl store) rfl links) (Nat.not_lt_zero _)
  same _ links _ _ _ := ⟨links, fun failure => nomatch failure⟩
  left _ right_head _ number_admits _ links _ right_small _ :=
    shallow_bind links (number_admits.covers _ (by simp)) (right_head ▸ height_chase_le links _ right_small)
  right left_head _ _ number_admits _ links left_small _ _ :=
    shallow_bind links (number_admits.covers _ (by simp)) (left_head ▸ height_chase_le links _ left_small)
  parts {_ store left right type type' _} left_head right_head _ _ _ turns links left_small right_small
      below := by
    have left_small' : type.height ≤ bound := left_head ▸ height_chase_le links _ left_small
    have right_small' : type'.height ≤ bound := right_head ▸ height_chase_le links _ right_small
    have below' := below.of_expand (left_head ▸ store.expand_resolve left : store.expand type = _)
    refine turns (fun clash verdict => ?_) links (fun joint mem => ?_) fun joint mem =>
      below'.child (Ty.children_of_joint mem).1
    · rcases Ty.reason_of_joints verdict with reason | ⟨_, _, _, reason⟩ <;> simp [reason]
    · have inside := (Ty.children_of_joint mem).imp Ty.height_lt_of_child Ty.height_lt_of_child
      omega
  done ends links _ _ := ⟨links, fun failure => ends _ failure⟩
  next changed first rest ends links small below := by
    rw [forall_mem_cons] at small below
    exact rest ends (first links small.1.1 small.1.2 below.1).links small.2
      fun joint mem => (below.2 joint mem).after changed
  fails first _ links small below := by
    rw [forall_mem_cons] at small below
    have shallow := first links small.1.1 small.1.2 below.1
    exact ⟨shallow.links, shallow.ends_under _⟩

theorem le_foldl_max {values : List Nat} {start value : Nat}
    (mem : value ≤ start ∨ value ∈ values) : value ≤ values.foldl max start := by
  induction values generalizing start with
  | nil =>
    rcases mem with below | mem
    · exact below
    · cases mem
  | cons first _ ih =>
    rw [foldl_cons]
    apply ih
    rcases mem with below | mem
    · exact .inl (Nat.le_trans below (Nat.le_max_left start first))
    · rcases mem_cons.mp mem with rfl | mem
      · exact .inl (Nat.le_max_right start value)
      · exact .inr mem

theorem linksWithin_linkHeight (store : Store) : store.LinksWithin store.linkHeight := by
  intro n type linked
  have made : n < store.cells.size := link?_lt linked
  have cell_link : (store.cells[n]).link = some type := by
    simpa [link?, Cells.link?, made] using linked
  apply le_foldl_max
  refine .inr (mem_map.mpr ⟨store.cells[n], ?_, ?_⟩)
  · exact Array.mem_toList_iff.mpr (Array.getElem_mem made)
  · rw [cell_link]
    rfl

theorem unify_ends (left_admits : store.Admits allowed rigid left)
    (right_admits : store.Admits allowed rigid right)
    (failure : (store.unify left right).2 = some clash) : clash.reason ≠ .endless := by
  let bound := max store.linkHeight (max left.height right.height)
  have left_small : left.height ≤ bound := by omega
  have right_small : right.height ≤ bound := by omega
  refine ((traced_shallow allowed rigid bound).run _ store left right left_admits right_admits ?_
    left_small right_small ?_).ends failure
  · intro n type linked
    have within := store.linksWithin_linkHeight n type linked
    omega
  · intro later keeps size links
    have deep := height_expand_le links left_small
    rw [size] at deep
    change _ < (store.size + 2) * (bound + 1) + 1
    rw [Nat.mul_add]
    omega

theorem attempt_unify (left_admits : store.Admits allowed rigid left)
    (right_admits : store.Admits allowed rigid right) :
    Attempt allowed rigid store left right (store.unify left right) :=
  attempt_unifyWithin _ store left right left_admits right_admits

end Store

end MiddleEnd
