import MiddleEnd.Proofs.Ty.Subst
import MiddleEnd.Ty.Unify

/-! What a type stands for once links are followed. The bounds on the walks along links are never
reached, so `expand` and `resolve` satisfy the equations without a bound, and a substitution that
respects the links does not tell a type from its expansion. -/

namespace MiddleEnd.Store

variable {store later : Store} {n : Nat} {type : Ty} {rank : Nat → Nat}

theorem link?_lt (linked : store.link? n = some type) : n < store.size := by
  by_cases made : n < store.cells.size
  · exact made
  · simp [link?, Cells.link?, Array.getElem?_eq_none (Nat.le_of_not_lt made)] at linked

theorem link?_vars_lt {next : Nat} (linked : store.link? n = some type) (mem : next ∈ type.vars) :
    next < store.size := by
  obtain ⟨_, ranked⟩ := store.acyclic
  exact (ranked n type linked next mem).1

theorem link_induction (store : Store) {motive : Nat → Prop}
    (step : ∀ n, (∀ type, store.link? n = some type → ∀ next ∈ type.vars, motive next) →
      motive n) (n : Nat) : motive n := by
  obtain ⟨rank, ranked⟩ := store.acyclic
  have below : ∀ bound n, rank n < bound → motive n := by
    intro bound
    induction bound with
    | zero => intro n lt; exact absurd lt (Nat.not_lt_zero _)
    | succ _ ih =>
      intro n _
      apply step
      intro type linked next mem
      have lower := (ranked n type linked next mem).2
      exact ih next (by omega)
  exact below (rank n + 1) n (Nat.lt_succ_self _)

/-! ### Equations of `expand` -/

theorem expandWithin_stable (ranked : store.cells.Ranked rank) (fuel : Nat) :
    ∀ (fuel' : Nat) (type : Ty), (∀ n ∈ type.vars, rank n < fuel) →
      (∀ n ∈ type.vars, rank n < fuel') →
      store.expandWithin fuel type = store.expandWithin fuel' type := by
  induction fuel with
  | zero =>
    intro fuel' type none_in _
    have no_vars : ∀ n, n ∉ type.vars :=
      fun n mem => absurd (none_in n mem) (Nat.not_lt_zero _)
    cases fuel' with
    | zero => rfl
    | succ _ =>
      rw [expandWithin, expandWithin, Ty.substVars]
      conv => lhs; rw [← Ty.subst_self type]
      exact Ty.subst_congr (fun n mem => absurd mem (no_vars n)) (fun _ _ => rfl)
  | succ _ ih =>
    intro fuel' type within within'
    cases fuel' with
    | zero =>
      have no_vars : ∀ n, n ∉ type.vars :=
        fun n mem => absurd (within' n mem) (Nat.not_lt_zero _)
      rw [expandWithin, expandWithin, Ty.substVars]
      conv => rhs; rw [← Ty.subst_self type]
      exact Ty.subst_congr (fun n mem => absurd mem (no_vars n)) (fun _ _ => rfl)
    | succ _ =>
      rw [expandWithin, expandWithin]
      apply Ty.subst_congr _ (fun _ _ => rfl)
      intro n mem
      cases linked : store.link? n with
      | none => rfl
      | some target =>
        apply ih
        · intro next here
          have lower := (ranked n target linked next here).2
          have bound := within n mem
          omega
        · intro next here
          have lower := (ranked n target linked next here).2
          have bound := within' n mem
          omega

theorem expand_var (store : Store) (n : Nat) :
    store.expand (.var n) =
      match store.link? n with
      | some target => store.expand target
      | none => .var n := by
  obtain ⟨rank, ranked, bounded⟩ := store.acyclic.bounded
  rw [expand, expandWithin, Ty.substVars, Ty.subst_var]
  cases linked : store.link? n with
  | none => rfl
  | some target =>
    apply expandWithin_stable ranked
    · intro next mem
      have lower := (ranked n target linked next mem).2
      have bound : rank n ≤ store.size := bounded n
      omega
    · intro next mem
      exact Nat.lt_succ_of_le (bounded next)

theorem expand_of_linked {target : Ty} (linked : store.link? n = some target) :
    store.expand (.var n) = store.expand target := by
  rw [expand_var, linked]

theorem expand_of_unlinked (unlinked : store.link? n = none) : store.expand (.var n) = .var n := by
  rw [expand_var, unlinked]

theorem expand_eq_subst (store : Store) (type : Ty) :
    store.expand type = type.substVars (fun n => store.expand (.var n)) := rfl

@[simp] theorem expand_prim (store : Store) (primitive : Primitive) :
    store.expand (.prim primitive) = .prim primitive := rfl

@[simp] theorem expand_function (store : Store) (params : List Ty) (result : Ty) :
    store.expand (.function params result) =
      .function (params.map store.expand) (store.expand result) := by
  rw [expand_eq_subst, Ty.substVars, Ty.subst_function]
  rfl

@[simp] theorem expand_tuple (store : Store) (elements : List Ty) :
    store.expand (.tuple elements) = .tuple (elements.map store.expand) := by
  rw [expand_eq_subst, Ty.substVars, Ty.subst_tuple]
  rfl

@[simp] theorem expand_app (store : Store) (con : Constructor) (element : Ty) :
    store.expand (.app con element) = .app con (store.expand element) := rfl

@[simp] theorem expand_generic (store : Store) (n : Nat) : store.expand (.generic n) = .generic n := rfl

theorem mem_vars_expand :
    n ∈ (store.expand type).vars ↔ ∃ other ∈ type.vars, n ∈ (store.expand (.var other)).vars := by
  rw [expand_eq_subst, Ty.substVars, Ty.mem_vars_subst]
  simp

theorem generics_expand_eq_nil : (store.expand type).generics = [] ↔
    (∀ n ∈ type.vars, (store.expand (.var n)).generics = []) ∧ type.generics = [] := by
  simp only [expand_eq_subst store type, Ty.substVars, List.eq_nil_iff_forall_not_mem, Ty.mem_generics_subst,
    Ty.generics_generic, List.mem_singleton]
  grind

theorem mem_expand_induction {motive : Nat → Prop} (here : store.link? n = none → motive n)
    (step : ∀ {other target next}, store.link? other = some target → next ∈ target.vars →
      motive next → motive other)
    {other : Nat} (mem : n ∈ (store.expand (.var other)).vars) : motive other := by
  revert mem
  induction other using store.link_induction with
  | step other ih =>
    intro mem
    cases linked : store.link? other with
    | none =>
      rw [expand_of_unlinked linked] at mem
      obtain rfl : n = other := by simpa using mem
      exact here linked
    | some target =>
      rw [expand_of_linked linked] at mem
      obtain ⟨next, there, mem⟩ := mem_vars_expand.mp mem
      exact step linked there (ih target linked next there mem)

theorem link?_of_mem_expand (mem : n ∈ (store.expand type).vars) : store.link? n = none := by
  obtain ⟨_, -, mem⟩ := mem_vars_expand.mp mem
  exact mem_expand_induction (motive := fun _ => store.link? n = none) id (fun _ _ => id) mem

/-! ### Substitutions that respect links -/

/-- Whether a substitution makes each linked variable equal to what it is linked to. -/
def Solves (store : Store) (solution : Nat → Ty) : Prop :=
  ∀ n type, store.link? n = some type → solution n = type.substVars solution

theorem Solves.expand {solution : Nat → Ty} (solves : store.Solves solution) (type : Ty) :
    (store.expand type).substVars solution = type.substVars solution := by
  rw [expand_eq_subst, Ty.substVars, Ty.substVars, Ty.subst_subst, Ty.substVars]
  apply Ty.subst_congr _ (fun _ _ => rfl)
  intro n mem
  clear mem
  induction n using store.link_induction with
  | step n ih =>
    cases linked : store.link? n with
    | none => rw [expand_of_unlinked linked, Ty.subst_var]
    | some target =>
      rw [expand_of_linked linked, solves n target linked, expand_eq_subst, Ty.substVars,
        Ty.subst_subst, Ty.substVars]
      exact Ty.subst_congr (ih target linked) (fun _ _ => rfl)

/-- What the links and a choice for the unlinked variables make of a variable. -/
def solution (store : Store) (choice : Nat → Ty) (n : Nat) : Ty :=
  (store.expand (.var n)).substVars choice

theorem substVars_solution (store : Store) (choice : Nat → Ty) (type : Ty) :
    type.substVars (store.solution choice) = (store.expand type).substVars choice := by
  rw [expand_eq_subst, Ty.substVars, Ty.substVars, Ty.substVars, Ty.subst_subst]
  rfl

theorem solves_solution (store : Store) (choice : Nat → Ty) : store.Solves (store.solution choice) := by
  intro _ _ linked
  rw [substVars_solution, solution, expand_of_linked linked]

theorem Solves.eq_solution {solution : Nat → Ty} (solves : store.Solves solution) :
    store.solution solution = solution := by
  funext n
  rw [Store.solution, solves.expand]
  rfl

/-! ### Stores that keep the links of a store -/

structure Keeps (store later : Store) : Prop where
  size_le : store.size ≤ later.size
  link? {n : Nat} {type : Ty} (linked : store.link? n = some type) :
    later.link? n = some type

theorem Keeps.refl (store : Store) : store.Keeps store := ⟨Nat.le_refl _, id⟩

theorem Keeps.trans {first second third : Store} (left : first.Keeps second)
    (right : second.Keeps third) : first.Keeps third :=
  ⟨Nat.le_trans left.size_le right.size_le, fun linked => right.link? (left.link? linked)⟩

section

variable (keeps : store.Keeps later)
include keeps

theorem Keeps.unlinked (unlinked : later.link? n = none) : store.link? n = none := by
  cases linked : store.link? n with
  | none => rfl
  | some _ => rw [keeps.link? linked] at unlinked; cases unlinked

theorem Keeps.solves {solution : Nat → Ty} (solves : later.Solves solution) : store.Solves solution :=
  fun n type linked => solves n type (keeps.link? linked)

theorem Keeps.expand_expand (type : Ty) : later.expand (store.expand type) = later.expand type := by
  have solves : store.Solves (fun n => later.expand (.var n)) := by
    intro _ _ linked
    exact expand_of_linked (keeps.link? linked)
  exact solves.expand type

theorem Keeps.expand_eq {left right : Ty}
    (same : store.expand left = store.expand right) : later.expand left = later.expand right := by
  rw [← keeps.expand_expand left, same, keeps.expand_expand]

end

@[simp] theorem expand_expand (store : Store) (type : Ty) :
    store.expand (store.expand type) = store.expand type :=
  (Keeps.refl store).expand_expand type

theorem Keeps.mem_vars_expand (keeps : store.Keeps later) :
    n ∈ (later.expand type).vars ↔
      ∃ other ∈ (store.expand type).vars, n ∈ (later.expand (.var other)).vars := by
  rw [← keeps.expand_expand type, Store.mem_vars_expand]

/-! ### The head of a type -/

theorem expand_chase (store : Store) (fuel : Nat) (type : Ty) :
    store.expand (store.chase fuel type) = store.expand type := by
  induction fuel generalizing type with
  | zero => rfl
  | succ _ ih =>
    cases type with
    | var n =>
      rw [chase]
      cases linked : store.link? n with
      | none => rfl
      | some target => rw [expand_of_linked linked]; exact ih target
    | _ => rfl

@[simp] theorem expand_resolve (store : Store) (type : Ty) :
    store.expand (store.resolve type) = store.expand type :=
  store.expand_chase _ type

theorem chase_eq_var (ranked : store.cells.Ranked rank) (fuel : Nat)
    (within : ∀ other ∈ type.vars, rank other < fuel) (head : store.chase fuel type = .var n) :
    store.link? n = none := by
  induction fuel generalizing type with
  | zero =>
    rw [chase] at head
    subst head
    exact absurd (within n (by simp)) (Nat.not_lt_zero _)
  | succ _ ih =>
    cases type with
    | var other =>
      rw [chase] at head
      cases linked : store.link? other with
      | none =>
        rw [linked] at head
        obtain rfl : other = n := Ty.var.inj head
        exact linked
      | some target =>
        rw [linked] at head
        apply ih _ head
        intro next mem
        have lower := (ranked other target linked next mem).2
        have bound := within other (by simp)
        omega
    | _ => simp [chase] at head

theorem resolve_eq_var (head : store.resolve type = .var n) : store.link? n = none := by
  obtain ⟨_, ranked, bounded⟩ := store.acyclic.bounded
  exact chase_eq_var ranked _ (fun other _ => Nat.lt_succ_of_le (bounded other)) head

/-! ### Types over the variables that were made -/

/-- Whether all variables of a type were made. -/
def Covers (store : Store) (type : Ty) : Prop := ∀ n ∈ type.vars, n < store.size

theorem missing?_eq_none : store.missing? type = none ↔ store.Covers type := by
  simp [missing?, Covers, List.find?_eq_none]

theorem Keeps.covers (keeps : store.Keeps later) (covers : store.Covers type) : later.Covers type :=
  fun n mem => Nat.lt_of_lt_of_le (covers n mem) keeps.size_le

theorem covers_chase (covers : store.Covers type) (fuel : Nat) :
    store.Covers (store.chase fuel type) := by
  induction fuel generalizing type with
  | zero => exact covers
  | succ _ ih =>
    cases type with
    | var n =>
      rw [chase]
      cases linked : store.link? n with
      | none => exact covers
      | some _ => exact ih fun _ mem => link?_vars_lt linked mem
    | _ => exact covers

theorem Covers.resolve (covers : store.Covers type) : store.Covers (store.resolve type) :=
  covers_chase covers _

theorem Covers.expand (covers : store.Covers type) : store.Covers (store.expand type) := by
  intro n mem
  obtain ⟨other, here, mem⟩ := Store.mem_vars_expand.mp mem
  exact mem_expand_induction (motive := fun other => other < store.size → n < store.size) (fun _ => id)
    (fun linked there ih _ => ih (link?_vars_lt linked there)) mem (covers other here)

end MiddleEnd.Store
