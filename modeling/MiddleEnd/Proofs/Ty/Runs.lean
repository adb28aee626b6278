import MiddleEnd.Proofs.Ty.Depth

/-! The walks along links and unification as rules without a bound. A derivation is a finite run, so a
walk ends where it has a derivation. Whatever variables have been made and whatever types have been
unified, with success or not, no way along links is a cycle, and every run on types over the variables
that were made ends, in the answer of the function with a bound and in no other. -/

namespace MiddleEnd

open List

variable {type : Ty} {types : List Ty} {rank : Nat → Nat} {answer target : Ty} {outcome : Bool × Store}
  {next : Nat}

namespace Ty

theorem mapChildren_congr {change change' : Ty → Ty}
    (agree : ∀ part ∈ type.children, change part = change' part) :
    type.mapChildren change = type.mapChildren change' := by
  cases type with
  | function params result =>
    have on_params : params.map change = params.map change' :=
      map_congr_left fun param mem => agree param (by simp [children, mem])
    rw [mapChildren, mapChildren, on_params, agree result (by simp [children])]
  | tuple _ => exact congrArg Ty.tuple (map_congr_left agree)
  | app _ element => rw [mapChildren, mapChildren, agree element (by simp [children])]
  | _ => rfl

end Ty

namespace Store

variable {store later : Store} {allowed rigid : Nat → Prop} {n level : Nat}

/-! ### The rules -/

inductive Resolves (store : Store) : Ty → Ty → Prop
  | stop {type : Ty} (head : ∀ n, type = .var n → store.link? n = none) :
      Resolves store type type
  | link {n : Nat} {target type : Ty} (linked : store.link? n = some target)
      (onward : Resolves store target type) : Resolves store (.var n) type

inductive Expands (store : Store) : Ty → Ty → Prop
  | parts {type head : Ty} {change : Ty → Ty} (resolves : Resolves store type head)
      (inner : ∀ part ∈ head.children, Expands store part (change part)) :
      Expands store type (head.mapChildren change)

inductive Seeks (n level : Nat) : Store → List Ty → Bool × Store → Prop
  | done {store : Store} : Seeks n level store [] (false, store)
  | found {store : Store} {type : Ty} {types : List Ty} (resolves : Resolves store type (.var n)) :
      Seeks n level store (type :: types) (true, store)
  | lowers {store : Store} {type : Ty} {types : List Ty} {other : Nat} {outcome : Bool × Store}
      (resolves : Resolves store type (.var other)) (differs : other ≠ n)
      (onward : Seeks n level (store.lower other level) types outcome) :
      Seeks n level store (type :: types) outcome
  | opens {store : Store} {type head : Ty} {types : List Ty} {outcome : Bool × Store}
      (resolves : Resolves store type head) (compound : ∀ n, head ≠ .var n)
      (onward : Seeks n level store (head.children ++ types) outcome) :
      Seeks n level store (type :: types) outcome

inductive Binds (store : Store) (n : Nat) (type : Ty) : Store × Option Clash → Prop
  | occurs {later : Store} (found : Seeks n (store.level n) store [type] (true, later)) :
      Binds store n type (later, some ⟨.occurs n type, []⟩)
  | link {later : Store} (missed : Seeks n (store.level n) store [type] (false, later))
      (avoids : later.Avoids type n) :
      Binds store n type (later.setLink n type avoids, none)

mutual
inductive Unifies : Store → Ty → Ty → Store × Option Clash → Prop
  | same {store : Store} {left right head : Ty} (left_head : Resolves store left head)
      (right_head : Resolves store right head) : Unifies store left right (store, none)
  | left {store : Store} {left right type : Ty} {n : Nat} {outcome : Store × Option Clash}
      (left_head : Resolves store left (.var n)) (right_head : Resolves store right type)
      (differs : .var n ≠ type) (binds : Binds store n type outcome) :
      Unifies store left right outcome
  | right {store : Store} {left right type : Ty} {n : Nat} {outcome : Store × Option Clash}
      (left_head : Resolves store left type) (right_head : Resolves store right (.var n))
      (compound : ∀ n, type ≠ .var n) (binds : Binds store n type outcome) :
      Unifies store left right outcome
  | parts {store : Store} {left right type type' : Ty} {outcome : Store × Option Clash}
      (left_head : Resolves store left type) (right_head : Resolves store right type')
      (differs : type ≠ type') (compound : ∀ n, type ≠ .var n)
      (compound' : ∀ n, type' ≠ .var n)
      (inTurn : UnifiesAll (type.joints type').2 store (type.joints type').1 outcome) :
      Unifies store left right outcome
inductive UnifiesAll : Option Clash → Store → List (Step × Ty × Ty) → Store × Option Clash → Prop
  | done {verdict : Option Clash} {store : Store} : UnifiesAll verdict store [] (store, verdict)
  | next {verdict : Option Clash} {store between : Store} {step : Step} {left right : Ty}
      {parts : List (Step × Ty × Ty)} {outcome : Store × Option Clash}
      (first : Unifies store left right (between, none))
      (rest : UnifiesAll verdict between parts outcome) :
      UnifiesAll verdict store ((step, left, right) :: parts) outcome
  | fails {verdict : Option Clash} {store later : Store} {step : Step} {left right : Ty}
      {parts : List (Step × Ty × Ty)} {clash : Clash}
      (first : Unifies store left right (later, some clash)) :
      UnifiesAll verdict store ((step, left, right) :: parts) (later, some (clash.under step))
end

/-! ### A run has one outcome -/

theorem Resolves.unique {head head' : Ty} (resolves : Resolves store type head)
    (resolves' : Resolves store type head') : head = head' := by
  induction resolves with
  | stop free =>
    cases resolves' with
    | stop _ => rfl
    | link linked _ =>
      have unlinked := free _ rfl
      rw [unlinked] at linked
      cases linked
  | link linked _ ih =>
    cases resolves' with
    | stop free =>
      have unlinked := free _ rfl
      rw [unlinked] at linked
      cases linked
    | link linked' onward' =>
      rw [linked] at linked'
      cases linked'
      exact ih onward'

theorem Expands.unique {answer' : Ty} (expands : Expands store type answer)
    (expands' : Expands store type answer') : answer = answer' := by
  induction expands generalizing answer' with
  | parts resolves _ ih =>
    cases expands' with
    | parts resolves' inner' =>
      obtain rfl := resolves.unique resolves'
      exact Ty.mapChildren_congr fun part mem => ih part mem (inner' part mem)

theorem Seeks.unique {outcome' : Bool × Store} (seeks : Seeks n level store types outcome)
    (seeks' : Seeks n level store types outcome') :
    outcome = outcome' := by
  induction seeks with
  | done =>
    cases seeks'
    rfl
  | found resolves =>
    cases seeks' with
    | found _ => rfl
    | lowers resolves' differs _ =>
      cases resolves.unique resolves'
      exact absurd rfl differs
    | opens resolves' compound _ => exact absurd (resolves'.unique resolves) (compound _)
  | lowers resolves differs _ ih =>
    cases seeks' with
    | found resolves' =>
      cases resolves.unique resolves'
      exact absurd rfl differs
    | lowers resolves' _ onward' =>
      cases resolves.unique resolves'
      exact ih onward'
    | opens resolves' compound _ => exact absurd (resolves'.unique resolves) (compound _)
  | opens resolves compound _ ih =>
    cases seeks' with
    | found resolves' => exact absurd (resolves.unique resolves') (compound _)
    | lowers resolves' _ _ => exact absurd (resolves.unique resolves') (compound _)
    | opens resolves' _ onward' =>
      cases resolves.unique resolves'
      exact ih onward'

theorem Binds.unique {outcome outcome' : Store × Option Clash} (binds : Binds store n type outcome)
    (binds' : Binds store n type outcome') :
    outcome = outcome' := by
  cases binds with
  | occurs found =>
    cases binds' with
    | occurs found' =>
      cases found.unique found'
      rfl
    | link missed' _ => cases found.unique missed'
  | link missed _ =>
    cases binds' with
    | occurs found' => cases missed.unique found'
    | link missed' _ =>
      cases missed.unique missed'
      rfl

mutual
theorem Unifies.unique {store : Store} {left right : Ty} {outcome outcome' : Store × Option Clash} :
    Unifies store left right outcome → Unifies store left right outcome' → outcome = outcome'
  | .same left_head right_head, unifies' => by
    cases unifies' with
    | same _ _ => rfl
    | left left_head' right_head' differs _ =>
      exact absurd ((left_head'.unique left_head).trans (right_head.unique right_head')) differs
    | right left_head' right_head' compound _ =>
      exact absurd ((left_head'.unique left_head).trans (right_head.unique right_head')) (compound _)
    | parts left_head' right_head' differs _ _ _ =>
      exact absurd ((left_head'.unique left_head).trans (right_head.unique right_head')) differs
  | .left left_head right_head differs binds, unifies' => by
    cases unifies' with
    | same left_head' right_head' =>
      exact absurd ((left_head.unique left_head').trans (right_head'.unique right_head)) differs
    | left left_head' right_head' _ binds' =>
      cases left_head.unique left_head'
      cases right_head.unique right_head'
      exact binds.unique binds'
    | right left_head' _ compound _ => exact absurd (left_head'.unique left_head) (compound _)
    | parts left_head' _ _ compound _ _ => exact absurd (left_head'.unique left_head) (compound _)
  | .right left_head right_head compound binds, unifies' => by
    cases unifies' with
    | same left_head' right_head' =>
      exact absurd ((left_head.unique left_head').trans (right_head'.unique right_head)) (compound _)
    | left left_head' _ _ _ => exact absurd (left_head.unique left_head') (compound _)
    | right left_head' right_head' _ binds' =>
      cases left_head.unique left_head'
      cases right_head.unique right_head'
      exact binds.unique binds'
    | parts _ right_head' _ _ compound' _ => exact absurd (right_head'.unique right_head) (compound' _)
  | .parts left_head right_head differs compound compound' inTurn, unifies' => by
    cases unifies' with
    | same left_head' right_head' =>
      exact absurd ((left_head.unique left_head').trans (right_head'.unique right_head)) differs
    | left left_head' _ _ _ => exact absurd (left_head.unique left_head') (compound _)
    | right _ right_head' _ _ => exact absurd (right_head.unique right_head') (compound' _)
    | parts left_head' right_head' _ _ _ inTurn' =>
      cases left_head.unique left_head'
      cases right_head.unique right_head'
      exact inTurn.unique inTurn'
theorem UnifiesAll.unique {verdict : Option Clash} {store : Store} {parts : List (Step × Ty × Ty)}
    {outcome outcome' : Store × Option Clash} : UnifiesAll verdict store parts outcome →
      UnifiesAll verdict store parts outcome' → outcome = outcome'
  | .done, unifies' => by
    cases unifies'
    rfl
  | .next first rest, unifies' => by
    cases unifies' with
    | next first' rest' =>
      cases first.unique first'
      exact rest.unique rest'
    | fails first' => cases first.unique first'
  | .fails first, unifies' => by
    cases unifies' with
    | next first' _ => cases first.unique first'
    | fails first' =>
      cases first.unique first'
      rfl
end

/-! ### Resolving and expanding -/

theorem resolves_chase (ranked : store.cells.Ranked rank) (fuel : Nat)
    (within : ∀ other ∈ type.vars, rank other < fuel) :
    Resolves store type (store.chase fuel type) := by
  induction fuel generalizing type with
  | zero =>
    apply Resolves.stop
    rintro n rfl
    exact absurd (within n (by simp)) (Nat.not_lt_zero _)
  | succ _ ih =>
    cases type with
    | var n =>
      rw [chase]
      cases linked : store.link? n with
      | none =>
        apply Resolves.stop
        intro _ same
        cases same
        exact linked
      | some target =>
        apply Resolves.link linked
        apply ih
        intro next mem
        have lower := (ranked n target linked next mem).2
        have bound := within n (by simp)
        omega
    | _ => exact .stop (by simp)

theorem resolves_resolve (store : Store) (type : Ty) : Resolves store type (store.resolve type) := by
  obtain ⟨_, ranked, bounded⟩ := store.acyclic.bounded
  exact resolves_chase ranked _ fun other _ => Nat.lt_succ_of_le (bounded other)

theorem Expands.link (linked : store.link? n = some target) (expands : Expands store target answer) :
    Expands store (.var n) answer := by
  cases expands with
  | parts resolves inner => exact .parts (.link linked resolves) inner

theorem expands_of_parts (free : ∀ n, type = .var n → store.link? n = none)
    (parts : ∀ part ∈ type.children, Expands store part (store.expand part)) :
    Expands store type (store.expand type) := by
  rw [expand_eq_mapChildren free]
  exact .parts (.stop free) parts

theorem expands_of_vars
    (on_vars : ∀ n ∈ type.vars, Expands store (.var n) (store.expand (.var n))) :
    Expands store type (store.expand type) := by
  induction type using Ty.children_induction with
  | step type ih =>
    cases type with
    | var n => exact on_vars n (by simp)
    | _ =>
      exact expands_of_parts (by simp) fun part mem => ih part mem fun n here =>
        on_vars n (Ty.mem_vars_of_child mem here)

theorem expands_expand (store : Store) (type : Ty) : Expands store type (store.expand type) := by
  apply expands_of_vars
  intro n mem
  clear mem
  induction n using store.link_induction with
  | step n ih =>
    cases linked : store.link? n with
    | none =>
      apply expands_of_parts _ (by simp [Ty.children])
      intro _ same
      cases same
      exact linked
    | some target =>
      rw [expand_of_linked linked]
      exact (expands_of_vars (ih target linked)).link linked

/-! ### The search -/

theorem scan_congr {visit visit' : Nat → Store → Bool × Store} {keeps : Store → Prop}
    {numbers : List Nat}
    (step : ∀ n ∈ numbers, ∀ store, keeps store →
      visit n store = visit' n store ∧ keeps (visit n store).2)
    {store : Store} (kept : keeps store) : scan visit numbers store = scan visit' numbers store := by
  induction numbers generalizing store with
  | nil => rfl
  | cons first _ ih =>
    obtain ⟨same, kept'⟩ := step first (.head _) store kept
    rw [scan, scan, ← same]
    split
    · rfl
    · next later missed =>
      rw [missed] at kept'
      exact ih (fun n mem => step n (.tail _ mem)) kept'

theorem scan_append (visit : Nat → Store → Bool × Store) (numbers numbers' : List Nat) (store : Store) :
    scan visit (numbers ++ numbers') store =
      match scan visit numbers store with
      | (true, store) => (true, store)
      | (false, store) => scan visit numbers' store := by
  induction numbers generalizing store with
  | nil => rfl
  | cons _ _ ih =>
    rw [cons_append, scan, scan]
    split
    · rfl
    · exact ih _

theorem scan_singleton (visit : Nat → Store → Bool × Store) (n : Nat) (store : Store) :
    scan visit [n] store = visit n store := by
  rw [scan]
  split
  · next found => exact found.symm
  · next missed => exact missed.symm

theorem seek_var (n level fuel next : Nat) (store : Store) :
    seek n level (fuel + 1) (.var next) store =
      if next = n then (true, store)
      else
        match store.link? next with
        | some target => seek n level fuel target store
        | none => (false, store.lower next level) := by
  rw [seek, Ty.vars_var]
  exact scan_singleton _ next store

theorem seek_eq_scan (n level fuel : Nat) (type : Ty) (store : Store) :
    seek n level (fuel + 1) type store =
      scan (fun next => seek n level (fuel + 1) (.var next)) type.vars store := by
  rw [seek]
  exact congrArg (fun visit => scan visit type.vars store)
    (funext fun next => funext fun later => (seek_var n level fuel next later).symm)

theorem seek_stable (n level : Nat) (ranked : store.cells.Ranked rank) (fuel fuel' : Nat)
    (type : Ty) (same : store.SameLinks later) (within : ∀ next ∈ type.vars, rank next < fuel)
    (within' : ∀ next ∈ type.vars, rank next < fuel') :
    seek n level fuel type later = seek n level fuel' type later := by
  induction fuel generalizing fuel' type later with
  | zero =>
    have no_vars : type.vars = [] :=
      eq_nil_iff_forall_not_mem.mpr fun next mem => Nat.not_lt_zero _ (within next mem)
    cases fuel' with
    | zero => rfl
    | succ _ => rw [seek_eq_scan, no_vars, seek, scan]
  | succ fuel ih =>
    cases fuel' with
    | zero =>
      have no_vars : type.vars = [] :=
        eq_nil_iff_forall_not_mem.mpr fun next mem => Nat.not_lt_zero _ (within' next mem)
      rw [seek_eq_scan, no_vars, seek, scan]
    | succ fuel' =>
      rw [seek_eq_scan, seek_eq_scan n level fuel']
      refine @scan_congr _ _ store.SameLinks _ (fun next mem between same => ⟨?_, ?_⟩) _ same
      · rw [seek_var, seek_var]
        cases linked : between.link? next with
        | none => rfl
        | some target =>
          have linked' : store.link? next = some target := (same.2 next).symm.trans linked
          have lower := fun further mem' => (ranked next target linked' further mem').2
          dsimp only
          rw [ih fuel' target same (fun further mem' => by
              have bound := within next mem
              have lower := lower further mem'
              omega) (fun further mem' => by
              have bound := within' next mem
              have lower := lower further mem'
              omega)]
      · exact (seek_spec n level ranked (fuel + 1) (.var next) same
          (fun other _ => within other (by simp_all))).1

def Searched (n level : Nat) (store : Store) (types : List Ty) : Prop :=
  ∀ later, store.SameLinks later → ∃ outcome, Seeks n level later types outcome ∧
    (store.link? n = none →
      outcome = scan (fun next => seek n level (store.size + 1) (.var next)) (types.flatMap Ty.vars)
        later)

theorem Seeks.link (linked : store.link? next = some target)
    (seeks : Seeks n level store (target :: types) outcome) :
    Seeks n level store (.var next :: types) outcome := by
  cases seeks with
  | found resolves => exact .found (.link linked resolves)
  | lowers resolves differs onward => exact .lowers (.link linked resolves) differs onward
  | opens resolves compound onward => exact .opens (.link linked resolves) compound onward

theorem Searched.link (linked : store.link? next = some target)
    (searched : Searched n level store (target :: types)) :
    Searched n level store (.var next :: types) := by
  intro later same
  obtain ⟨outcome, seeks, equal⟩ := searched later same
  refine ⟨outcome, seeks.link ((same.2 next).trans linked), fun unlinked => ?_⟩
  have differs : next ≠ n := by
    rintro rfl
    rw [linked] at unlinked
    cases unlinked
  obtain ⟨rank, ranked, bounded⟩ := store.acyclic.bounded
  have visit : seek n level (store.size + 1) (.var next) later =
      seek n level (store.size + 1) target later := by
    rw [seek_var, if_neg differs, same.2 next, linked]
    refine seek_stable n level ranked _ _ target same (fun further mem => ?_)
      fun further _ => Nat.lt_succ_of_le (bounded further)
    have lower := (ranked next target linked further mem).2
    have bound : rank next ≤ store.size := bounded next
    omega
  rewrite [equal unlinked, flatMap_cons, flatMap_cons, scan_append, Ty.vars_var,
    singleton_append, scan, visit, ← seek_eq_scan]
  rfl

theorem Searched.meet (unlinked : store.link? next = none)
    (searched : Searched n level store types) :
    Searched n level store (.var next :: types) := by
  intro later same
  have resolves : Resolves later (.var next) (.var next) := by
    apply Resolves.stop
    intro _ is_next
    cases is_next
    exact (same.2 next).trans unlinked
  by_cases is_number : next = n
  · subst is_number
    refine ⟨_, .found resolves, fun _ => ?_⟩
    rw [flatMap_cons, Ty.vars_var, singleton_append, scan, seek_var, if_pos rfl]
  · obtain ⟨outcome, seeks, equal⟩ := searched _ (same.trans (.lower later next level))
    refine ⟨outcome, .lowers resolves is_number seeks, fun free => ?_⟩
    rw [equal free, flatMap_cons, Ty.vars_var, singleton_append, scan, seek_var,
      if_neg is_number, same.2 next, unlinked]

theorem Searched.opens (compound : ∀ n, type ≠ .var n)
    (searched : Searched n level store (type.children ++ types)) :
    Searched n level store (type :: types) := by
  intro later same
  obtain ⟨outcome, seeks, equal⟩ := searched later same
  have resolves : Resolves later type type := .stop fun next is_var => absurd is_var (compound next)
  refine ⟨outcome, .opens resolves compound seeks, fun free => ?_⟩
  rw [equal free, flatMap_append, flatMap_cons, Ty.vars_eq_children compound]

theorem Searched.append {parts : List Ty}
    (each : ∀ part ∈ parts, ∀ types, Searched n level store types →
      Searched n level store (part :: types)) (searched : Searched n level store types) :
    Searched n level store (parts ++ types) := by
  induction parts with
  | nil => exact searched
  | cons part _ ih =>
    exact each part (.head _) _ (ih fun part mem => each part (.tail _ mem))

theorem Searched.of_vars (on_vars : ∀ next ∈ type.vars, ∀ types, Searched n level store types →
      Searched n level store (.var next :: types)) :
    ∀ types, Searched n level store types → Searched n level store (type :: types) := by
  induction type using Ty.children_induction with
  | step type ih =>
    cases type with
    | var next => exact on_vars next (by simp)
    | _ =>
      exact fun types searched => .opens (by simp) (.append (fun part mem => ih part mem
        fun next here => on_vars next (Ty.mem_vars_of_child mem here)) searched)

theorem searched (n level : Nat) (store : Store) (type : Ty) : Searched n level store [type] := by
  apply Searched.of_vars
  · intro next mem
    clear mem
    induction next using store.link_induction with
    | step next ih =>
      intro types searched
      cases linked : store.link? next with
      | none => exact searched.meet linked
      | some target => exact (Searched.of_vars (ih target linked) types searched).link linked
  · exact fun _ _ => ⟨_, .done, fun _ => rfl⟩

theorem seeks_occurs (unlinked : store.link? n = none) :
    Seeks n (store.level n) store [type] (store.occurs n type) := by
  obtain ⟨_, seeks, equal⟩ := searched n (store.level n) store type store (.refl store)
  rw [equal unlinked] at seeks
  rw [occurs, seek_eq_scan]
  simpa using seeks

/-! ### Unification -/

theorem binds_bind (unlinked : store.link? n = none) (covers : store.Covers type) :
    Binds store n type (store.bind n type) := by
  have seeks : Seeks n _ store [type] _ := seeks_occurs unlinked
  rw [bind]
  split
  · next missing found =>
    rw [missing?_eq_none.mpr covers] at found
    cases found
  · dsimp only
    split
    · next apart =>
      refine .link ?_ _
      rw [← apart]
      exact seeks
    · next found =>
      apply Binds.occurs
      rw [← (Bool.not_eq_false _).mp found]
      exact seeks

theorem traced_unifies (allowed rigid : Nat → Prop) : Traced allowed rigid
    (fun _ store left right outcome =>
      (∀ clash, outcome.2 = some clash → clash.reason ≠ .endless) → Unifies store left right outcome)
    (fun _ verdict store parts outcome =>
      (∀ clash, outcome.2 = some clash → clash.reason ≠ .endless) →
        UnifiesAll verdict store parts outcome) where
  endless _ _ _ ends := absurd rfl (ends _ rfl)
  same {_ store left right} heads _ :=
    .same (heads ▸ resolves_resolve store left) (resolves_resolve store right)
  left {_ store left right _ _} left_head right_head differs _ type_admits _ :=
    .left (left_head ▸ resolves_resolve store left) (right_head ▸ resolves_resolve store right) differs
      (binds_bind (resolve_eq_var left_head) type_admits.covers)
  right {_ store left right _ _} left_head right_head compound _ type_admits _ :=
    .right (left_head ▸ resolves_resolve store left) (right_head ▸ resolves_resolve store right) compound
      (binds_bind (resolve_eq_var right_head) type_admits.covers)
  parts {_ store left right _ _ _} left_head right_head differs compound compound' turns ends :=
    .parts (left_head ▸ resolves_resolve store left) (right_head ▸ resolves_resolve store right) differs
      compound compound' (turns ends)
  done _ := .done
  next _ first rest ends := .next (first (by simp)) (rest ends)
  fails {_ _ _ _ step _ _ _ clash} first ends := .fails (first fun _ failure =>
    Option.some.inj failure ▸ ends (clash.under step) rfl)

theorem unifies_unify {left right : Ty} (left_covers : store.Covers left)
    (right_covers : store.Covers right) : Unifies store left right (store.unify left right) :=
  (traced_unifies _ _).run _ store left right left_covers.admits right_covers.admits
    fun _ failure => unify_ends left_covers.admits right_covers.admits failure

/-! ### Histories of calls -/

/-- Whether links lead to variables that were made and no way along them leads back. -/
def Rooted (store : Store) : Prop :=
  ∀ n type, store.link? n = some type →
    ∀ next ∈ type.vars, next < store.size ∧ ¬ store.cells.Reaches next n

/-- Whether every walk from a type ends, and in which answer. -/
structure Halts (store : Store) (type : Ty) : Prop where
  resolves (answer : Ty) : Resolves store type answer ↔ answer = store.resolve type
  expands (answer : Ty) : Expands store type answer ↔ answer = store.expand type
  seeks (n level : Nat) :
    ∃ outcome, ∀ answer, Seeks n level store [type] answer ↔ answer = outcome
  unifies (other : Ty) (covers : store.Covers other) (outcome : Store × Option Clash) :
    Unifies store type other outcome ↔ outcome = store.unify type other

theorem rank_le_of_reaches (ranked : store.cells.Ranked rank) {n last : Nat}
    (reaches : store.cells.Reaches n last) : rank last ≤ rank n := by
  induction reaches with
  | here => exact Nat.le_refl _
  | step linked mem _ ih =>
    exact Nat.le_trans ih (Nat.le_of_lt (ranked _ _ linked _ mem).2)

theorem rooted (store : Store) : store.Rooted := by
  obtain ⟨_, ranked⟩ := store.acyclic
  intro n type linked next mem
  obtain ⟨made, lower⟩ := ranked n type linked next mem
  refine ⟨made, fun reaches => ?_⟩
  exact absurd lower (Nat.not_lt.mpr (rank_le_of_reaches ranked reaches))

theorem halts (covers : store.Covers type) : store.Halts type where
  resolves answer := by
    refine ⟨fun resolves => resolves.unique (resolves_resolve store type), ?_⟩
    rintro rfl
    exact resolves_resolve store type
  expands answer := by
    refine ⟨fun expands => expands.unique (expands_expand store type), ?_⟩
    rintro rfl
    exact expands_expand store type
  seeks n level := by
    obtain ⟨outcome, seeks, -⟩ := searched n level store type store (.refl store)
    refine ⟨outcome, fun answer => ⟨fun seeks' => seeks'.unique seeks, ?_⟩⟩
    rintro rfl
    exact seeks
  unifies other other_covers outcome := by
    refine ⟨fun unifies => unifies.unique (unifies_unify covers other_covers), ?_⟩
    rintro rfl
    exact unifies_unify covers other_covers

/-- A call on a store. -/
inductive Request where
  | fresh (level : Nat)
  | unify (left right : Ty)

def serve (store : Store) : Request → Store
  | .fresh level => (store.fresh level).1
  | .unify left right => (store.unify left right).1

/-- The store after calls, the first of them on the empty store. -/
def replay (requests : List Request) : Store := requests.foldl serve empty

theorem replay_rooted_halts (requests : List Request) :
    (replay requests).Rooted ∧
      ∀ type, (replay requests).Covers type →
        (replay requests).Halts type ∧
          (∀ n ∈ ((replay requests).expand type).vars, (replay requests).link? n = none) ∧
          (replay requests).expand ((replay requests).expand type) = (replay requests).expand type := by
  refine ⟨rooted _, fun type covers => ⟨halts covers, ?_, expand_expand _ type⟩⟩
  intro n member
  exact link?_of_mem_expand member

/-- A call that fails after it has linked a variable: the results unify and the parameters do not. -/
def halfLinked : List Request :=
  [.fresh 0, .fresh 0,
    .unify (.function [.var 0] (.var 1)) (.function [.array (.var 0)] (.option (.var 0)))]

theorem replay_rooted_halts_halfLinked :
    (replay halfLinked).link? 1 = some (.option (.var 0)) ∧
      (replay halfLinked).Rooted ∧
      (replay halfLinked).Covers (.tuple [.var 1, .var 0]) ∧
      (replay halfLinked).Halts (.tuple [.var 1, .var 0]) ∧
      (replay halfLinked).expand (.tuple [.var 1, .var 0]) = .tuple [.option (.var 0), .var 0] := by
  have covers : (replay halfLinked).Covers (.tuple [.var 1, .var 0]) :=
    missing?_eq_none.mp (by decide)
  obtain ⟨rooted, ends⟩ := replay_rooted_halts halfLinked
  exact ⟨by decide, rooted, covers, (ends _ covers).1, by decide⟩

end Store

end MiddleEnd
