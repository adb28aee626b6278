import MiddleEnd.Proofs.Ty.Depth

/-! Types at a level: no variable behind them belongs to a deeper binding, and no placeholder stands
in them. Every operation of inference on the store keeps types at their levels. -/

namespace MiddleEnd.Store

open List

variable {store later : Store} {level level' : Nat} {type : Ty} {n : Nat}

structure Mono (store : Store) (level : Nat) (type : Ty) : Prop where
  covers : store.Covers type
  levels : ∀ n ∈ (store.expand type).vars, store.level n ≤ level
  plain : (store.expand type).generics = []

def Scheme (store : Store) (level : Nat) (type : Ty) : Prop :=
  ∀ n ∈ type.vars, store.Mono level (.var n)

structure Grows (store later : Store) : Prop where
  keeps : store.Keeps later
  mono {level : Nat} {type : Ty} (mono : store.Mono level type) : later.Mono level type

theorem Grows.refl (store : Store) : store.Grows store := ⟨.refl store, id⟩

theorem Grows.trans {first second third : Store} (left : first.Grows second)
    (right : second.Grows third) : first.Grows third :=
  ⟨left.keeps.trans right.keeps, fun mono => right.mono (left.mono mono)⟩

theorem Grows.scheme (grows : store.Grows later) (scheme : store.Scheme level type) :
    later.Scheme level type :=
  fun n mem => grows.mono (scheme n mem)

theorem Mono.mono (mono : store.Mono level type) (le : level ≤ level') : store.Mono level' type :=
  ⟨mono.covers, fun n mem => Nat.le_trans (mono.levels n mem) le, mono.plain⟩

theorem Scheme.mono (scheme : store.Scheme level type) (le : level ≤ level') :
    store.Scheme level' type :=
  fun n mem => (scheme n mem).mono le

/-! ### Types from their parts -/

theorem mono_iff : store.Mono level type ↔ store.Scheme level type ∧ type.generics = [] := by
  constructor
  · intro mono
    obtain ⟨behind, plain⟩ := generics_expand_eq_nil.mp mono.plain
    refine ⟨fun n mem => ⟨?_, ?_, behind n mem⟩, plain⟩
    · intro found here
      obtain rfl : found = n := by simpa using here
      exact mono.covers found mem
    · exact fun found here => mono.levels found (mem_vars_expand.mpr ⟨n, mem, here⟩)
  · rintro ⟨scheme, plain⟩
    refine ⟨fun n mem => (scheme n mem).covers n (by simp), fun found mem => ?_,
      generics_expand_eq_nil.mpr ⟨fun n mem => (scheme n mem).plain, plain⟩⟩
    obtain ⟨n, there, mem⟩ := mem_vars_expand.mp mem
    exact (scheme n there).levels found mem

theorem Mono.scheme (mono : store.Mono level type) : store.Scheme level type := (mono_iff.mp mono).1

theorem Mono.generics (mono : store.Mono level type) : type.generics = [] := (mono_iff.mp mono).2

theorem mono_prim (store : Store) (level : Nat) (primitive : Primitive) :
    store.Mono level (.prim primitive) :=
  mono_iff.mpr ⟨fun _ mem => (nomatch mem), rfl⟩

theorem mono_app {con : Constructor} : store.Mono level (.app con type) ↔ store.Mono level type := by
  rw [mono_iff, mono_iff]
  rfl

theorem mono_tuple {elements : List Ty} :
    store.Mono level (.tuple elements) ↔ ∀ element ∈ elements, store.Mono level element := by
  constructor
  · intro mono element mem
    rw [mono_iff] at mono ⊢
    refine ⟨fun n here => mono.1 n (by simp; exact ⟨element, mem, here⟩), ?_⟩
    have none_in := mono.2
    rw [Ty.generics_tuple, flatMap_eq_nil_iff] at none_in
    exact none_in element mem
  · intro parts
    rw [mono_iff]
    refine ⟨fun n here => ?_, ?_⟩
    · obtain ⟨element, mem, here⟩ := mem_flatMap.mp ((Ty.vars_tuple elements) ▸ here)
      exact (parts element mem).scheme n here
    · rw [Ty.generics_tuple, flatMap_eq_nil_iff]
      exact fun element mem => (parts element mem).generics

theorem mono_function {params : List Ty} {result : Ty} :
    store.Mono level (.function params result) ↔
      (∀ param ∈ params, store.Mono level param) ∧ store.Mono level result := by
  constructor
  · intro mono
    rw [mono_iff, Ty.generics_function, append_eq_nil_iff, flatMap_eq_nil_iff] at mono
    obtain ⟨scheme, params_plain, result_plain⟩ := mono
    refine ⟨fun param mem => mono_iff.mpr ⟨fun n here => ?_, params_plain param mem⟩,
      mono_iff.mpr ⟨fun n here => ?_, result_plain⟩⟩
    · exact scheme n (by simp; exact .inl ⟨param, mem, here⟩)
    · exact scheme n (by simp [here])
  · rintro ⟨params_mono, result_mono⟩
    rw [mono_iff, Ty.generics_function, append_eq_nil_iff, flatMap_eq_nil_iff]
    refine ⟨fun n here => ?_, fun param mem => (params_mono param mem).generics, result_mono.generics⟩
    rw [Ty.vars_function, mem_append, mem_flatMap] at here
    obtain ⟨param, mem, here⟩ | here := here
    · exact (params_mono param mem).scheme n here
    · exact result_mono.scheme n here

theorem Mono.of_expand {type' : Ty} (mono : store.Mono level type) (covers : store.Covers type')
    (same : store.expand type' = store.expand type) : store.Mono level type' :=
  ⟨covers, by rw [same]; exact mono.levels, by rw [same]; exact mono.plain⟩

theorem Mono.resolve (mono : store.Mono level type) : store.Mono level (store.resolve type) :=
  mono.of_expand mono.covers.resolve (store.expand_resolve type)

/-! ### Fresh variables -/

theorem sameLinks_expand_fresh (store : Store) (level : Nat) (type : Ty) :
    (store.fresh level).1.expand type = store.expand type := by
  have keeps : store.Keeps (store.fresh level).1 :=
    ⟨by rw [size_fresh]; omega, fun linked => by rw [link?_fresh]; exact linked⟩
  rw [← keeps.expand_expand type, expand_eq_subst, Ty.substVars]
  conv => rhs; rw [← Ty.subst_self (store.expand type)]
  apply Ty.subst_congr _ (fun _ _ => rfl)
  intro _ mem
  exact expand_of_unlinked (by rw [link?_fresh]; exact link?_of_mem_expand mem)

theorem grows_fresh (store : Store) (level : Nat) : store.Grows (store.fresh level).1 where
  keeps := ⟨by rw [size_fresh]; omega, fun linked => by rw [link?_fresh]; exact linked⟩
  mono mono := by
    refine ⟨fun n mem => ?_, ?_, ?_⟩
    · have made := mono.covers n mem
      rw [size_fresh]
      omega
    · intro n mem
      rw [sameLinks_expand_fresh] at mem
      rw [level_fresh_of_lt (mono.covers.expand n mem)]
      exact mono.levels n mem
    · rw [sameLinks_expand_fresh]
      exact mono.plain

theorem link?_size (store : Store) : store.link? store.size = none := by
  cases linked : store.link? store.size with
  | none => rfl
  | some _ => exact absurd (link?_lt linked) (Nat.lt_irrefl _)

theorem mono_fresh (store : Store) (level : Nat) :
    (store.fresh level).1.Mono level (.var store.size) := by
  have unlinked : (store.fresh level).1.link? store.size = none := by
    rw [link?_fresh]
    exact store.link?_size
  refine ⟨fun n mem => ?_, ?_, ?_⟩
  · obtain rfl : n = store.size := by simpa using mem
    rw [size_fresh]
    omega
  · intro n mem
    rw [expand_of_unlinked unlinked] at mem
    obtain rfl : n = store.size := by simpa using mem
    exact Nat.le_of_eq (store.level_fresh_self level)
  · rw [expand_of_unlinked unlinked]
    rfl

/-! ### Unification -/

theorem Mono.admits (mono : store.Mono level type) :
    store.Admits (fun _ => True) (fun _ => False) type :=
  ⟨mono.covers, fun _ _ => trivial, fun _ mem => by rw [mono.plain] at mem; cases mem⟩

theorem Unified.grows (unified : store.Unified (fun _ => True) (fun _ => False) later) :
    store.Grows later where
  keeps := unified.keeps
  mono mono := by
    have admits := unified.admits mono.admits
    refine ⟨admits.covers, fun n mem => ?_, ?_⟩
    · obtain ⟨between, there, mem⟩ := unified.keeps.mem_vars_expand.mp mem
      exact Nat.le_trans (unified.levels (link?_of_mem_expand there) n mem) (mono.levels between there)
    · rw [eq_nil_iff_forall_not_mem]
      exact admits.generics

theorem grows_unify {left right : Ty} (left_mono : store.Mono level left)
    (right_mono : store.Mono level' right) : store.Grows (store.unify left right).1 :=
  (attempt_unify left_mono.admits right_mono.admits).unified.grows

/-! ### Freezing -/

theorem sameLinks_freeze (store : Store) (n : Nat) : store.SameLinks (store.freeze n) :=
  ⟨size_freeze store n, link?_freeze store n⟩

theorem sameLinks_foldl_freeze (numbers : List Nat) (store : Store) :
    store.SameLinks (numbers.foldl freeze store) := by
  induction numbers generalizing store with
  | nil => exact .refl store
  | cons n _ ih => exact (sameLinks_freeze store n).trans (ih (store.freeze n))

theorem level_foldl_freeze (numbers : List Nat) (store : Store) (other : Nat) :
    (numbers.foldl freeze store).level other = store.level other := by
  induction numbers generalizing store with
  | nil => rfl
  | cons n _ ih => exact (ih (store.freeze n)).trans (level_freeze store n other)

theorem isGeneralized_lt (frozen : store.isGeneralized n = true) : n < store.size := by
  by_cases made : n < store.cells.size
  · exact made
  · simp [isGeneralized, made] at frozen

theorem isGeneralized_foldl_freeze {numbers : List Nat}
    (frozen : store.isGeneralized n = true ∨ n ∈ numbers ∧ n < store.size) :
    (numbers.foldl freeze store).isGeneralized n = true := by
  induction numbers generalizing store with
  | nil =>
    rcases frozen with frozen | ⟨mem, -⟩
    · exact frozen
    · cases mem
  | cons first _ ih =>
    apply ih
    rw [isGeneralized_freeze, size_freeze]
    by_cases same : first = n
    · have made : n < store.size := frozen.elim isGeneralized_lt And.right
      simp [same, made]
    · rw [if_neg same]
      exact frozen.imp_right fun ⟨mem, made⟩ =>
        ⟨(mem_cons.mp mem).resolve_left fun other => same other.symm, made⟩

theorem Grows.of_sameLinks (same : store.SameLinks later)
    (levels : ∀ n, later.level n = store.level n) : store.Grows later where
  keeps := same.keeps
  mono mono := by
    refine ⟨same.keeps.covers mono.covers, fun n mem => ?_, ?_⟩
    · rw [same.expand] at mem
      rw [levels]
      exact mono.levels n mem
    · rw [same.expand]
      exact mono.plain

theorem grows_generalize (store : Store) (level : Nat) (type : Ty) :
    store.Grows (store.generalize level type).1 :=
  .of_sameLinks (sameLinks_foldl_freeze _ store) (level_foldl_freeze _ store)

theorem scheme_generalize (mono : store.Mono level' type) (level : Nat) :
    (store.generalize level type).1.Scheme level (store.generalize level type).2 := by
  intro n mem
  apply (store.grows_generalize level type).mono
  simp only [generalize, Ty.substVars, Ty.mem_vars_subst] at mem
  obtain ⟨other, there, mem⟩ | ⟨other, -, mem⟩ := mem
  · split at mem
    · simp at mem
    · next shallow =>
      obtain rfl : n = other := by simpa using mem
      have unlinked := link?_of_mem_expand there
      refine ⟨fun found here => ?_, fun found here => ?_, ?_⟩
      · obtain rfl : found = n := by simpa using here
        exact mono.covers.expand found there
      · rw [expand_of_unlinked unlinked] at here
        obtain rfl : found = n := by simpa using here
        simpa using shallow
      · rw [expand_of_unlinked unlinked]
        rfl
  · simp at mem

end MiddleEnd.Store
