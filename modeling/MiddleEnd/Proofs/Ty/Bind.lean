import MiddleEnd.Proofs.Ty.Expand

/-! Linking one variable: what the search for it in the type changes, and what the types of the
store stand for afterwards. -/

namespace MiddleEnd.Store

variable {level n : Nat} {type : Ty} {store later : Store}

@[simp] theorem size_fresh (store : Store) (level : Nat) :
    (store.fresh level).1.size = store.size + 1 := by
  simp [fresh, size]

@[simp] theorem link?_fresh (store : Store) (level n : Nat) :
    (store.fresh level).1.link? n = store.link? n :=
  Cells.link?_push store.cells level n

theorem level_fresh_of_lt (made : n < store.size) : (store.fresh level).1.level n = store.level n := by
  have made' : n < store.cells.size := made
  simp only [fresh, Store.level, Array.getElem?_push_lt made', Array.getElem?_eq_getElem made']

@[simp] theorem level_fresh_self (store : Store) (level : Nat) :
    (store.fresh level).1.level store.size = level := by
  simp [fresh, Store.level, size]

theorem isGeneralized_fresh (store : Store) (level n : Nat) :
    (store.fresh level).1.isGeneralized n = store.isGeneralized n := by
  simp only [fresh, isGeneralized]
  rw [Array.getElem?_push]
  split
  · next same => simp [same]
  · rfl

section Modify

variable {change : TyVar → TyVar} {kept : ∀ cell, (change cell).link = cell.link}

@[simp] theorem size_modify : (store.modify n change kept).size = store.size := by
  simp [modify, size]

@[simp] theorem link?_modify (other : Nat) :
    (store.modify n change kept).link? other = store.link? other :=
  Cells.link?_modify_of_link store.cells n other change kept

theorem level_modify (other : Nat) :
    (store.modify n change kept).level other =
      if n = other then ((store.cells[other]?.map change).map TyVar.level).getD 0
      else store.level other := by
  simp only [modify, Store.level, Array.getElem?_modify]
  split <;> rfl

theorem isGeneralized_modify (other : Nat) :
    (store.modify n change kept).isGeneralized other =
      if n = other then ((store.cells[other]?.map change).map TyVar.generalized).getD false
      else store.isGeneralized other := by
  simp only [modify, isGeneralized, Array.getElem?_modify]
  split <;> rfl

end Modify

theorem level_lower (store : Store) (n level other : Nat) :
    (store.lower n level).level other =
      if n = other then min (store.level other) level else store.level other := by
  rw [lower, level_modify]
  split
  · cases found : store.cells[other]? <;> simp [Store.level, found]
  · rfl

@[simp] theorem isGeneralized_lower (store : Store) (n level other : Nat) :
    (store.lower n level).isGeneralized other = store.isGeneralized other := by
  rw [lower, isGeneralized_modify]
  split
  · cases found : store.cells[other]? <;> simp [isGeneralized, found]
  · rfl

@[simp] theorem level_freeze (store : Store) (n other : Nat) :
    (store.freeze n).level other = store.level other := by
  rw [freeze, level_modify]
  split
  · cases found : store.cells[other]? <;> simp [Store.level, found]
  · rfl

@[simp] theorem size_freeze (store : Store) (n : Nat) :
    (store.freeze n).size = store.size := size_modify

@[simp] theorem link?_freeze (store : Store) (n other : Nat) :
    (store.freeze n).link? other = store.link? other := link?_modify other

theorem isGeneralized_freeze (store : Store) (n other : Nat) :
    (store.freeze n).isGeneralized other =
      if n = other then decide (other < store.size) else store.isGeneralized other := by
  rw [freeze, isGeneralized_modify]
  split
  · by_cases made : other < store.cells.size
    · simp [made, size]
    · simp [made, size]
  · rfl

section SetLink

variable {avoids : store.Avoids type n}

@[simp] theorem size_setLink : (store.setLink n type avoids).size = store.size := by
  simp [setLink, size]

theorem link?_setLink (made : n < store.size) (other : Nat) :
    (store.setLink n type avoids).link? other =
      if other = n then some type else store.link? other := by
  simp only [setLink, link?]
  rw [Cells.link?_modify]
  split
  · next same =>
    subst same
    have made' : other < store.cells.size := made
    simp [made']
  · rfl

theorem link?_setLink_of_le (unmade : store.size ≤ n) (other : Nat) :
    (store.setLink n type avoids).link? other = store.link? other := by
  simp only [setLink, link?]
  rw [Cells.link?_modify]
  split
  · next same =>
    subst same
    have unmade' : store.cells.size ≤ other := unmade
    simp [Cells.link?, unmade']
  · rfl

@[simp] theorem level_setLink (other : Nat) :
    (store.setLink n type avoids).level other = store.level other := by
  simp only [setLink, Store.level, Array.getElem?_modify]
  split
  · cases store.cells[other]? <;> rfl
  · rfl

@[simp] theorem isGeneralized_setLink (other : Nat) :
    (store.setLink n type avoids).isGeneralized other = store.isGeneralized other := by
  simp only [setLink, isGeneralized, Array.getElem?_modify]
  split
  · cases store.cells[other]? <;> rfl
  · rfl

end SetLink

/-! ### Ways along links -/

theorem reaches_of_mem_expand {other : Nat} (mem : n ∈ (store.expand (.var other)).vars) :
    store.cells.Reaches other n :=
  mem_expand_induction (motive := (store.cells.Reaches · n)) (fun _ => .here n) .step mem

section

variable (avoids : store.Avoids type n)
include avoids

theorem Avoids.not_mem_expand : n ∉ (store.expand type).vars := by
  intro mem
  obtain ⟨next, there, mem⟩ := mem_vars_expand.mp mem
  exact (avoids next there).2 (reaches_of_mem_expand mem)

theorem keeps_setLink (made : n < store.size) (unlinked : store.link? n = none) :
    store.Keeps (store.setLink n type avoids) := by
  refine ⟨Nat.le_of_eq size_setLink.symm, fun {found target} linked => ?_⟩
  rw [link?_setLink made]
  split
  · next same =>
    subst same
    rw [unlinked] at linked
    cases linked
  · exact linked

theorem expand_setLink (made : n < store.size) (unlinked : store.link? n = none) (other : Ty) :
    (store.setLink n type avoids).expand other =
      (store.expand other).substVars
        (fun found => if found = n then store.expand type else .var found) := by
  have keeps := keeps_setLink avoids made unlinked
  have elsewhere : ∀ found, store.link? found = none → found ≠ n →
      (store.setLink n type avoids).expand (.var found) = .var found := by
    intro _ free differs
    apply expand_of_unlinked
    rw [link?_setLink made, if_neg differs, free]
  have here : (store.setLink n type avoids).expand type = store.expand type := by
    rw [← keeps.expand_expand type, expand_eq_subst, Ty.substVars]
    conv => rhs; rw [← Ty.subst_self (store.expand type)]
    apply Ty.subst_congr _ (fun _ _ => rfl)
    intro found mem
    have differs : found ≠ n := fun same => avoids.not_mem_expand (same ▸ mem)
    exact elsewhere found (link?_of_mem_expand mem) differs
  rw [← keeps.expand_expand other, expand_eq_subst]
  apply Ty.subst_congr _ (fun _ _ => rfl)
  intro found mem
  by_cases same : found = n
  · subst same
    rw [if_pos rfl, ← here]
    exact expand_of_linked (by rw [link?_setLink made, if_pos rfl])
  · rw [if_neg same]
    exact elsewhere found (link?_of_mem_expand mem) same

end

/-! ### The search lowers levels -/

structure Lowers (store later : Store) : Prop where
  sameLinks : store.SameLinks later
  level_le (n : Nat) : later.level n ≤ store.level n
  isGeneralized (n : Nat) : later.isGeneralized n = store.isGeneralized n

theorem Lowers.refl (store : Store) : store.Lowers store :=
  ⟨.refl store, fun _ => Nat.le_refl _, fun _ => rfl⟩

theorem Lowers.trans {first second third : Store} (left : first.Lowers second)
    (right : second.Lowers third) : first.Lowers third :=
  ⟨left.sameLinks.trans right.sameLinks,
    fun n => Nat.le_trans (right.level_le n) (left.level_le n),
    fun n => (right.isGeneralized n).trans (left.isGeneralized n)⟩

theorem lowers_lower (store : Store) (n level : Nat) : store.Lowers (store.lower n level) := by
  refine ⟨.lower store n level, fun _ => ?_, isGeneralized_lower store n level⟩
  rw [level_lower]
  split
  · exact Nat.min_le_left _ _
  · exact Nat.le_refl _

theorem SameLinks.keeps (same : store.SameLinks later) : store.Keeps later :=
  ⟨Nat.le_of_eq same.1.symm, fun linked => (same.2 _).trans linked⟩

theorem SameLinks.expand (same : store.SameLinks later) (type : Ty) :
    later.expand type = store.expand type := by
  rw [← same.keeps.expand_expand type, expand_eq_subst, Ty.substVars]
  conv => rhs; rw [← Ty.subst_self (store.expand type)]
  apply Ty.subst_congr _ (fun _ _ => rfl)
  intro n mem
  exact expand_of_unlinked ((same.2 n).trans (link?_of_mem_expand mem))

inductive Sought (store : Store) (n level : Nat) : List Nat → Store → Bool × Store → Prop where
  | ended (later : Store) : Sought store n level [] later (false, later)
  | here (rest : List Nat) (later : Store) : Sought store n level (n :: rest) later (true, later)
  | behind {next : Nat} {rest : List Nat} {later between : Store} {target : Ty}
      (linked : store.link? next = some target)
      (found : Sought store n level target.vars later (true, between)) :
      Sought store n level (next :: rest) later (true, between)
  | past {next : Nat} {rest : List Nat} {later between : Store} {target : Ty} {outcome : Bool × Store}
      (linked : store.link? next = some target)
      (missed : Sought store n level target.vars later (false, between))
      (onward : Sought store n level rest between outcome) :
      Sought store n level (next :: rest) later outcome
  | free {next : Nat} {rest : List Nat} {later : Store} {outcome : Bool × Store} (differs : next ≠ n)
      (unlinked : store.link? next = none)
      (onward : Sought store n level rest (later.lower next level) outcome) :
      Sought store n level (next :: rest) later outcome

theorem sought_seek (n level : Nat) {rank : Nat → Nat} (ranked : store.cells.Ranked rank) (fuel : Nat)
    (type : Ty) (same : store.SameLinks later) (shallow : ∀ next ∈ type.vars, rank next < fuel) :
    Sought store n level type.vars later (seek n level fuel type later) := by
  induction fuel generalizing type later with
  | zero =>
    rw [List.eq_nil_iff_forall_not_mem.mpr fun next mem => Nat.not_lt_zero _ (shallow next mem)]
    exact .ended later
  | succ fuel ih =>
    rw [seek]
    generalize type.vars = numbers at shallow
    induction numbers generalizing later with
    | nil => exact .ended later
    | cons next rest rest_ih =>
      have shallow_rest (further : Nat) (mem : further ∈ rest) := shallow further (.tail _ mem)
      rw [scan]
      by_cases here : next = n
      · subst here
        rw [if_pos rfl]
        exact .here rest later
      · rw [if_neg here]
        cases linked : later.link? next with
        | none =>
          exact .free here ((same.2 next).symm.trans linked)
            (rest_ih (same.trans (.lower later next level)) shallow_rest)
        | some target =>
          have linked' : store.link? next = some target := (same.2 next).symm.trans linked
          have shallow' (further : Nat) (mem : further ∈ target.vars) : rank further < fuel := by
            have lower := (ranked next target linked' further mem).2
            have bound := shallow next (.head _)
            omega
          have run := ih target same shallow'
          have kept := (seek_spec n level ranked fuel target same shallow').1
          dsimp only
          split
          · next result => exact .behind linked' (result ▸ run)
          · next result =>
            rw [result] at run kept
            exact .past linked' run (rest_ih kept shallow_rest)

theorem sought_occurs (store : Store) (n : Nat) (type : Ty) :
    Sought store n (store.level n) type.vars store (store.occurs n type) := by
  obtain ⟨_, ranked, bounded⟩ := store.acyclic.bounded
  exact sought_seek _ _ ranked _ type (.refl store) fun next _ => Nat.lt_succ_of_le (bounded next)

namespace Sought

variable {numbers : List Nat} {outcome : Bool × Store}

section

variable (sought : Sought store n level numbers later outcome)
include sought

theorem lowers : later.Lowers outcome.2 := by
  induction sought with
  | ended later | here _ later => exact .refl later
  | behind _ _ ih => exact ih
  | past _ _ _ ih onward_ih => exact ih.trans onward_ih
  | free _ _ _ ih => exact (lowers_lower _ _ _).trans ih

theorem passed (missed : outcome.1 = false) :
    ∀ next ∈ numbers, ∀ found ∈ (store.expand (.var next)).vars, outcome.2.level found ≤ level := by
  induction sought with
  | ended => exact List.forall_mem_nil _
  | here | behind => cases missed
  | past linked _ onward ih onward_ih =>
    refine List.forall_mem_cons.mpr ⟨fun found mem => ?_, onward_ih missed⟩
    rw [expand_of_linked linked] at mem
    obtain ⟨other, there, mem⟩ := mem_vars_expand.mp mem
    exact Nat.le_trans (onward.lowers.level_le found) (ih rfl other there found mem)
  | @free next _ later _ _ unlinked onward ih =>
    refine List.forall_mem_cons.mpr ⟨fun found mem => ?_, ih missed⟩
    rw [expand_of_unlinked unlinked] at mem
    obtain rfl := List.mem_singleton.mp mem
    refine Nat.le_trans (onward.lowers.level_le found) ?_
    rw [level_lower, if_pos rfl]
    exact Nat.min_le_right _ _

theorem reaches (found : outcome.1 = true) : ∃ next ∈ numbers, store.cells.Reaches next n := by
  induction sought with
  | ended => cases found
  | here => exact ⟨n, .head _, .here n⟩
  | behind linked _ ih =>
    obtain ⟨_, there, reaches⟩ := ih rfl
    exact ⟨_, .head _, .step linked there reaches⟩
  | past _ _ _ _ ih | free _ _ _ ih =>
    obtain ⟨next, there, reaches⟩ := ih found
    exact ⟨next, .tail _ there, reaches⟩

theorem level_cases (other : Nat) :
    outcome.2.level other = later.level other ∨ outcome.2.level other = level ∧
      ∃ next ∈ numbers, other ∈ (store.expand (.var next)).vars := by
  induction sought with
  | ended | here => exact .inl rfl
  | @behind next _ _ _ _ linked _ ih =>
    refine ih.imp_right fun ⟨same, there⟩ => ⟨same, next, .head _, ?_⟩
    rw [expand_of_linked linked]
    exact mem_vars_expand.mpr there
  | @past next _ _ _ _ _ linked _ _ ih onward_ih =>
    rcases onward_ih with same | ⟨same, further, mem, there⟩
    · rw [same]
      refine ih.imp_right fun ⟨same, there⟩ => ⟨same, next, .head _, ?_⟩
      rw [expand_of_linked linked]
      exact mem_vars_expand.mpr there
    · exact .inr ⟨same, further, .tail _ mem, there⟩
  | @free next _ later _ _ unlinked _ ih =>
    rcases ih with same | ⟨same, further, mem, there⟩
    · rw [same, level_lower]
      split
      · next here =>
        rcases Nat.le_total (later.level other) level with below | above
        · exact .inl (Nat.min_eq_left below)
        · exact .inr ⟨Nat.min_eq_right above, next, .head _, by simp [← here, expand_of_unlinked unlinked]⟩
      · exact .inl rfl
    · exact .inr ⟨same, further, .tail _ mem, there⟩

theorem level_self : outcome.2.level n = later.level n := by
  induction sought with
  | ended | here => rfl
  | behind _ _ ih => exact ih
  | past _ _ _ ih onward_ih => exact onward_ih.trans ih
  | free differs _ _ ih => rw [ih, level_lower, if_neg differs]

end

end Sought

theorem occurs_lowers (store : Store) (n : Nat) (type : Ty) :
    store.Lowers (store.occurs n type).2 ∧
      ((store.occurs n type).1 = false →
        ∀ found ∈ (store.expand type).vars, (store.occurs n type).2.level found ≤ store.level n) := by
  have sought := store.sought_occurs n type
  refine ⟨sought.lowers, fun missed found mem => ?_⟩
  obtain ⟨next, there, mem⟩ := mem_vars_expand.mp mem
  exact sought.passed missed next there found mem

end MiddleEnd.Store
