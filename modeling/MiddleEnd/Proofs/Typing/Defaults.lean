import MiddleEnd.Proofs.Typing.Calls
import MiddleEnd.Proofs.Typing.Derivation

/-! Which variables default to unit. Each default names variables, and linking one of them to unit takes
it away from what the others name but brings nothing new in, so the defaults can be visited in any
order. -/

namespace MiddleEnd

open List

variable {store later : Store} {chosen chosen' : Nat → Prop} {n : Nat} {type : Ty} {program : Resolved}

namespace Store

structure Undetermined (store : Store) (n : Nat) : Prop where
  made : n < store.size
  unlinked : store.link? n = none
  unfrozen : store.isGeneralized n = false

structure UnitAt (store : Store) (chosen : Nat → Prop) (later : Store) : Prop where
  size_eq : later.size = store.size
  level (n : Nat) : later.level n = store.level n
  isGeneralized (n : Nat) : later.isGeneralized n = store.isGeneralized n
  unit {n : Nat} (undetermined : store.Undetermined n) (member : chosen n) :
    later.link? n = some .unit
  rest {n : Nat} (spared : store.Undetermined n → ¬chosen n) :
    later.link? n = store.link? n

theorem ext_of_cells (same_size : later.size = store.size)
    (link? : ∀ n, later.link? n = store.link? n)
    (level : ∀ n, later.level n = store.level n)
    (isGeneralized : ∀ n, later.isGeneralized n = store.isGeneralized n) :
    later = store := by
  obtain ⟨_, _⟩ := store
  obtain ⟨_, _⟩ := later
  congr 1
  refine Array.ext same_size fun n made made' => ?_
  have link := link? n
  have depth := level n
  have frozen := isGeneralized n
  simp only [Store.link?, Cells.link?, Store.level, Store.isGeneralized, Array.getElem?_eq_getElem made,
    Array.getElem?_eq_getElem made', Option.bind_some, Option.map_some, Option.getD_some] at link depth frozen
  exact (TyVar.mk.injEq ..).mpr ⟨link, depth, frozen⟩

theorem UnitAt.unique {later' : Store} (left : store.UnitAt chosen later)
    (right : store.UnitAt chosen' later') (same : ∀ n, chosen n ↔ chosen' n) : later = later' := by
  refine ext_of_cells (left.size_eq.trans right.size_eq.symm) (fun n => ?_)
    (fun n => (left.level n).trans (right.level n).symm)
    fun n => (left.isGeneralized n).trans (right.isGeneralized n).symm
  by_cases taken : store.Undetermined n ∧ chosen n
  · rw [left.unit taken.1 taken.2, right.unit taken.1 ((same n).mp taken.2)]
  · rw [left.rest fun undetermined mem => taken ⟨undetermined, mem⟩,
      right.rest fun undetermined mem => taken ⟨undetermined, (same n).mpr mem⟩]

theorem UnitAt.refl (store : Store) : store.UnitAt (fun _ => False) store :=
  ⟨rfl, fun _ => rfl, fun _ => rfl, fun _ => False.elim, fun _ => rfl⟩

theorem unitAt_defaultVariable (store : Store) (n : Nat) :
    store.UnitAt (· = n) (store.defaultVariable n) := by
  unfold defaultVariable
  split
  · next free =>
    simp only [Bool.and_eq_true, Option.isNone_iff_eq_none, Bool.not_eq_true'] at free
    refine ⟨size_setLink, level_setLink, isGeneralized_setLink, fun undetermined same => ?_, fun spared => ?_⟩
    · subst same
      rw [link?_setLink undetermined.made, if_pos rfl]
    · by_cases made : n < store.size
      · rw [link?_setLink made, if_neg]
        rintro rfl
        exact spared ⟨made, free.1, free.2⟩ rfl
      · exact link?_setLink_of_le (Nat.le_of_not_lt made) _
  · next known =>
    refine ⟨rfl, fun _ => rfl, fun _ => rfl, fun undetermined same => ?_, fun _ => rfl⟩
    subst same
    exact absurd (by simp [undetermined.unlinked, undetermined.unfrozen]) known

namespace UnitAt

theorem congr (units : store.UnitAt chosen later) (same : ∀ n, chosen n ↔ chosen' n) :
    store.UnitAt chosen' later where
  size_eq := units.size_eq
  level := units.level
  isGeneralized := units.isGeneralized
  unit undetermined mem := units.unit undetermined ((same _).mpr mem)
  rest spared := units.rest fun undetermined mem => spared undetermined ((same _).mp mem)

theorem undetermined_iff (units : store.UnitAt chosen later) :
    later.Undetermined n ↔ store.Undetermined n ∧ ¬chosen n := by
  constructor
  · intro free
    by_cases taken : store.Undetermined n ∧ chosen n
    · have linked := units.unit taken.1 taken.2
      rw [free.unlinked] at linked
      cases linked
    · have same := units.rest fun undetermined mem => taken ⟨undetermined, mem⟩
      have before : store.Undetermined n :=
        ⟨units.size_eq ▸ free.made, same.symm.trans free.unlinked,
          (units.isGeneralized n).symm.trans free.unfrozen⟩
      exact ⟨before, fun mem => taken ⟨before, mem⟩⟩
  · rintro ⟨before, spared⟩
    exact ⟨units.size_eq.symm ▸ before.made, (units.rest fun _ => spared).trans before.unlinked,
      (units.isGeneralized n).trans before.unfrozen⟩

theorem trans {middle : Store} {added : Nat → Prop} (first : store.UnitAt chosen middle)
    (second : middle.UnitAt chosen' later)
    (same : ∀ n, middle.Undetermined n → (chosen' n ↔ added n)) :
    store.UnitAt (fun n => chosen n ∨ added n) later where
  size_eq := second.size_eq.trans first.size_eq
  level n := (second.level n).trans (first.level n)
  isGeneralized n := (second.isGeneralized n).trans (first.isGeneralized n)
  unit {n} undetermined mem := by
    by_cases before : chosen n
    · have linked := first.unit undetermined before
      refine (second.rest fun free => ?_).trans linked
      rw [free.unlinked] at linked
      cases linked
    · have free := first.undetermined_iff.mpr ⟨undetermined, before⟩
      exact second.unit free ((same n free).mpr (mem.resolve_left before))
  rest {n} spared := by
    refine (second.rest fun free mem => ?_).trans (first.rest fun free mem => spared free (.inl mem))
    exact spared (first.undetermined_iff.mp free).1 (.inr ((same n free).mp mem))

theorem defaulted (units : store.UnitAt chosen later) : store.Defaulted later where
  keeps := by
    refine ⟨Nat.le_of_eq units.size_eq.symm, fun {n type} linked => ?_⟩
    refine (units.rest fun free => ?_).trans linked
    rw [free.unlinked] at linked
    cases linked
  isGeneralized := units.isGeneralized
  size_eq := units.size_eq
  frozen {n} frozen := units.rest fun free => by
    rw [free.unfrozen] at frozen
    cases frozen
  unit {n type} unlinked linked := by
    by_cases taken : store.Undetermined n ∧ chosen n
    · rw [units.unit taken.1 taken.2] at linked
      exact (Option.some.inj linked).symm
    · rw [units.rest fun undetermined mem => taken ⟨undetermined, mem⟩, unlinked] at linked
      cases linked

end UnitAt

theorem unitAt_foldl (numbers : List Nat) (store : Store) :
    store.UnitAt (· ∈ numbers) (numbers.foldl defaultVariable store) := by
  induction numbers generalizing store with
  | nil => exact (UnitAt.refl store).congr (by simp)
  | cons n _ ih =>
    exact ((unitAt_defaultVariable store n).trans (ih _) fun _ _ => Iff.rfl).congr (by simp)

theorem expand_eq_var : store.expand type = .var n ↔ store.resolve type = .var n := by
  constructor
  · intro same
    by_contra differs
    exact expand_ne_var (store.resolve_resolve type) differs ((store.expand_resolve type).trans same)
  · intro head
    rw [← expand_resolve, head, expand_of_unlinked (resolve_eq_var head)]

theorem expand_eq_function {params : List Ty} {result : Ty} :
    store.expand type = .function params result ↔ ∃ params' result', store.resolve type = .function params' result' ∧
      params'.map store.expand = params ∧ store.expand result' = result := by
  rw [← expand_resolve]
  cases head : store.resolve type with
  | var _ => simp [expand_of_unlinked (resolve_eq_var head)]
  | _ => simp

end Store

inductive Default where
  /-- The element of an empty literal. -/
  | element (n : Nat)
  /-- The type of a value that is thrown away. -/
  | discarded (type : Ty)
  | result (external : External)

namespace Default

def apply (store : Store) : Default → Store
  | element n => store.defaultVariable n
  | discarded type => store.defaultToUnit type
  | result external => store.defaultResult external

def Names (store : Store) : Default → Nat → Prop
  | element other, n => n = other
  | discarded type, n => n ∈ (store.expand type).vars
  | result external, n => ∃ params, store.expand external.type = .function params (.var n)

theorem unitAt_apply (store : Store) (default : Default) :
    store.UnitAt (default.Names store) (default.apply store) := by
  cases default with
  | element n => exact store.unitAt_defaultVariable n
  | discarded _ => exact Store.unitAt_foldl _ store
  | result external =>
    have names (n : Nat) : (result external).Names store n ↔ ∃ params inner,
        store.resolve external.type = .function params inner ∧ store.resolve inner = .var n := by
      simp [Names, Store.expand_eq_function, Store.expand_eq_var]
    simp only [apply, Store.defaultResult]
    split
    · next head =>
      split
      · next n found =>
        refine (store.unitAt_defaultVariable n).congr fun other => ?_
        simp [names, head, found, eq_comm]
      · next other =>
        refine (Store.UnitAt.refl store).congr fun n => ?_
        simpa [names, head] using other n
    · next other =>
      refine (Store.UnitAt.refl store).congr fun n => ?_
      simpa [names] using fun params inner head => absurd head (other params inner)

theorem names_iff (defaulted : store.Defaulted later) (unlinked : later.link? n = none)
    (default : Default) : default.Names later n ↔ default.Names store n := by
  have itself : later.expand (.var n) = .var n := Store.expand_of_unlinked unlinked
  cases default with
  | element _ => exact Iff.rfl
  | discarded _ =>
    refine defaulted.keeps.mem_vars_expand.trans ⟨?_, fun mem => ⟨n, mem, by simp [itself]⟩⟩
    rintro ⟨_, there, mem⟩
    rcases defaulted.expand_eq (Store.link?_of_mem_expand there) with same | unit
    · rw [same] at mem
      exact mem_singleton.mp mem ▸ there
    · rw [unit] at mem
      cases mem
  | result external =>
    have final {other : Nat} (mem : other ∈ (store.expand external.type).vars) :
        later.expand (.var other) = .var n ↔ other = n := by
      refine ⟨fun same => ?_, fun same => same ▸ itself⟩
      rcases defaulted.expand_eq (Store.link?_of_mem_expand mem) with kept | unit
      · exact Ty.var.inj (kept.symm.trans same)
      · rw [unit] at same
        cases same
    simp only [Names]
    rw [← defaulted.keeps.expand_expand external.type]
    cases whole : store.expand external.type with
    | var other =>
      have mem : other ∈ (store.expand external.type).vars := by simp [whole]
      rcases defaulted.expand_eq (Store.link?_of_mem_expand mem) with kept | unit
      · simp [kept]
      · simp [unit, Ty.unit]
    | function _ result =>
      cases result with
      | var _ => simpa using final (by simp [whole])
      | _ => simp
    | _ => simp

theorem unitAt_step (units : store.UnitAt chosen later) (default : Default) :
    store.UnitAt (fun n => chosen n ∨ default.Names store n) (default.apply later) :=
  units.trans (default.unitAt_apply later) fun _ free => names_iff units.defaulted free.unlinked default

theorem unitAt_run (units : store.UnitAt chosen later) (defaults : List Default) :
    store.UnitAt (fun n => chosen n ∨ ∃ default ∈ defaults, default.Names store n)
      (defaults.foldl apply later) := by
  induction defaults generalizing chosen later with
  | nil => exact units.congr (by simp)
  | cons default _ ih => exact (ih (unitAt_step units default)).congr (by simp [or_assoc])

theorem unitAt_foldl (store : Store) (defaults : List Default) :
    store.UnitAt (fun n => ∃ default ∈ defaults, default.Names store n) (defaults.foldl apply store) :=
  (unitAt_run (.refl store) defaults).congr (by simp)

theorem foldl_eq_of_perm (store : Store) {order defaults : List Default} (perm : order.Perm defaults) :
    order.foldl apply store = defaults.foldl apply store :=
  (unitAt_foldl store order).unique (unitAt_foldl store defaults) fun _ => by simp [perm.mem_iff]

end Default

namespace Inference

def defaults (state : Inference) (body : TypedExpr) : List Default :=
  state.empties.map .element ++
    (body.names.filter fun bound => bound.symbol.isWildcard).map (fun bound => .discarded bound.type) ++
      state.externals.entries.map fun entry => .result entry.2

theorem settle_eq (state : Inference) (body : TypedExpr) :
    state.settle body = (state.defaults body).foldl Default.apply state.store := by
  simp only [settle, defaults, foldl_append, foldl_map]
  rfl

theorem unitAt_settle (state : Inference) (body : TypedExpr) :
    state.store.UnitAt (fun n => ∃ default ∈ state.defaults body, default.Names state.store n)
      (state.settle body) :=
  state.settle_eq body ▸ Default.unitAt_foldl state.store (state.defaults body)

end Inference

theorem Resolved.check_of_run {settings : Settings} {body : TypedExpr} {state : Inference}
    (infers : (Infer.program program).run (.start settings) = .ok (body, state)) :
    program.check settings = do
      let typed ← state.close program body
      typed.body.checkComparisons
      return typed := by
  change (Infer.program program).run (.start settings) >>= _ = _
  rw [infers]
  rfl

/-! ### Orders of a visit -/

/-- An order in which everything is visited that has no order of its own. -/
structure Visits where
  defaults : List Default → List Default
  defaults_perm (list : List Default) : (defaults list).Perm list
  externals : List (String × External) → List (String × External)
  externals_perm (entries : List (String × External)) : (externals entries).Perm entries

namespace Visits

def reversed : Visits := ⟨List.reverse, List.reverse_perm, List.reverse, List.reverse_perm⟩

def settle (visits : Visits) (state : Inference) (body : TypedExpr) : Store :=
  (visits.defaults (state.defaults body)).foldl Default.apply state.store

def close (visits : Visits) (state : Inference) (program : Resolved) (body : TypedExpr) :
    Except Stop Typed := do
  let store := visits.settle state body
  let body ← Close.expr store body
  let externals ← Close.externals store program (visits.externals state.externals.entries)
  return { body, externals := ⟨externals⟩ }

def check (visits : Visits) (program : Resolved) (settings : Settings) : Except Stop Typed := do
  let (body, state) ← (Infer.program program).run (.start settings)
  let typed ← visits.close state program body
  typed.body.checkComparisons
  return typed

end Visits

def Close.unknown (store : Store) (program : Resolved) (entry : String × External) : Stop :=
  .rejected {
    problem := .cannotInfer ("external '" ++ entry.1 ++ "'") (store.display entry.2.type)
    span := declared program entry.1 }

theorem Close.externals_cases (store : Store) (program : Resolved) (entries : List (String × External)) :
    (∀ entry ∈ entries, store.Closes entry.2.type) ∧ Close.externals store program entries =
        .ok (entries.map fun (name, external) => (name, { external with type := store.closed external.type })) ∨
      ∃ entry ∈ entries, ¬store.Closes entry.2.type ∧
        Close.externals store program entries = .error (unknown store program entry) := by
  induction entries with
  | nil => exact .inl ⟨forall_mem_nil _, rfl⟩
  | cons entry _ ih =>
    obtain ⟨name, external⟩ := entry
    rw [Close.externals, Close.type]
    cases final : store.close? external.type with
    | none =>
      refine .inr ⟨_, .head _, fun closes => ?_, rfl⟩
      rw [Store.close?_eq_some.mpr ⟨closes, rfl⟩] at final
      cases final
    | some _ =>
      obtain ⟨closes, rfl⟩ := Store.close?_eq_some.mp final
      rcases ih with ⟨all, same⟩ | ⟨entry, mem, free, same⟩
      · exact .inl ⟨forall_mem_cons.mpr ⟨closes, all⟩, by rw [same]; rfl⟩
      · exact .inr ⟨entry, mem_cons_of_mem _ mem, free, by rw [same]; rfl⟩

/-- Outcomes that differ at most in the order of the externals, or in which of the externals with an
unknown type is reported. -/
inductive Visits.Agree (store : Store) (program : Resolved) (entries : List (String × External)) :
    Except Stop Typed → Except Stop Typed → Prop
  | accepted {left right : Typed} (body : left.body = right.body)
      (externals : left.externals.entries.Perm right.externals.entries) :
      Visits.Agree store program entries (.ok left) (.ok right)
  | rejected (stop : Stop) : Visits.Agree store program entries (.error stop) (.error stop)
  | unknown {left right : String × External} (left_member : left ∈ entries) (right_member : right ∈ entries)
      (left_open : ¬store.Closes left.2.type) (right_open : ¬store.Closes right.2.type) :
      Visits.Agree store program entries (.error (Close.unknown store program left))
        (.error (Close.unknown store program right))

theorem Visits.Agree.compared {entries : List (String × External)} {left right : Except Stop Typed}
    (agree : Visits.Agree store program entries left right) : Visits.Agree store program entries
      (do let typed ← left; typed.body.checkComparisons; return typed)
      (do let typed ← right; typed.body.checkComparisons; return typed) := by
  cases agree with
  | @accepted left right body externals =>
    change Visits.Agree _ _ _ (left.body.checkComparisons >>= fun _ => .ok left)
      (right.body.checkComparisons >>= fun _ => .ok right)
    rw [body]
    cases right.body.checkComparisons with
    | error stop => exact .rejected stop
    | ok _ => exact .accepted body externals
  | rejected stop => exact .rejected stop
  | unknown left_member right_member left_open right_open =>
    exact .unknown left_member right_member left_open right_open

namespace Visits

theorem settle_eq (visits : Visits) (state : Inference) (body : TypedExpr) :
    visits.settle state body = state.settle body := by
  rw [settle, Default.foldl_eq_of_perm _ (visits.defaults_perm _), Inference.settle_eq]

theorem close_agrees (visits : Visits) (state : Inference) (program : Resolved) (body : TypedExpr) :
    Visits.Agree (state.settle body) program state.externals.entries (visits.close state program body)
      (state.close program body) := by
  have perm := visits.externals_perm state.externals.entries
  rw [close, visits.settle_eq, Inference.close]
  cases closed : Close.expr (state.settle body) body with
  | error stop => exact .rejected stop
  | ok _ =>
    rcases Close.externals_cases (state.settle body) program (visits.externals state.externals.entries) with
      ⟨all, left⟩ | ⟨entry, mem, free, left⟩
    · rcases Close.externals_cases (state.settle body) program state.externals.entries with
        ⟨-, right⟩ | ⟨entry, mem, free, -⟩
      · simp only [left, right]
        exact .accepted rfl (perm.map _)
      · exact absurd (all entry (perm.mem_iff.mpr mem)) free
    · rcases Close.externals_cases (state.settle body) program state.externals.entries with
        ⟨all, -⟩ | ⟨entry', mem', free', right⟩
      · exact absurd (all entry (perm.mem_iff.mp mem)) free
      · simp only [left, right]
        exact .unknown (perm.mem_iff.mp mem) mem' free free'

end Visits

/-- Whatever order the defaults and the externals of an inferred program are visited in, the same
variables are linked to the same types, and the outcome is the same but for the order of the externals
and for which one of unknown type is reported. -/
theorem Resolved.check_unordered {program : Resolved} {settings : Settings} {body : TypedExpr} {state : Inference}
    (infers : (Infer.program program).run (.start settings) = .ok (body, state)) (visits : Visits) :
    visits.settle state body = state.settle body ∧
      Visits.Agree (state.settle body) program state.externals.entries (visits.check program settings)
        (program.check settings) := by
  refine ⟨visits.settle_eq state body, ?_⟩
  rw [check_of_run infers, Visits.check, infers]
  exact (visits.close_agrees state program body).compared

/-- `let _ = f (g None) in h [||]` -/
def Surface.discardedCall : Surface :=
  let name (text : String) : Ident := ⟨text, default, 0⟩
  let call (text : String) (order : Nat) (arg : Expr Ident Mention TypeExpr Span) :=
    Expr.apply default (.var default ⟨name text, order⟩) [arg]
  { body :=
      .letIn default ⟨name "_", none⟩ (call "f" 0 (call "g" 1 (.none default)))
        (call "h" 2 (.arrayLit default [])) }

/-- The result of the outer call is discarded, that of the inner one is its argument. Backwards the
results come first, and the elements of the literals last. -/
theorem Resolved.check_unordered_discardedCall : ∃ resolved body state typed,
    Surface.discardedCall.resolve = .ok resolved ∧
    (Infer.program resolved).run (.start { seedBuiltins := false }) = .ok (body, state) ∧
    resolved.check { seedBuiltins := false } = .ok typed ∧ typed.body.type = .unit ∧
    (state.defaults body).length = 6 ∧ Visits.reversed.settle state body = state.settle body ∧
    Visits.Agree (state.settle body) resolved state.externals.entries
      (Visits.reversed.check resolved { seedBuiltins := false })
      (resolved.check { seedBuiltins := false }) := by
  obtain ⟨resolved, typed, resolves, checks, test⟩ :=
    Surface.exists_of_accepted Surface.discardedCall { seedBuiltins := false } fun resolved typed =>
      match (Infer.program resolved).run (.start { seedBuiltins := false }) with
      | .ok (body, state) => decide (typed.body.type = .unit ∧ (state.defaults body).length = 6)
      | .error _ => false
  obtain ⟨⟨body, state⟩, run, -⟩ := bind_eq_ok.mp checks
  have infers : (Infer.program resolved).run (.start { seedBuiltins := false }) = .ok (body, state) := run
  rw [infers] at test
  obtain ⟨unit, length⟩ := of_decide_eq_true test
  exact ⟨resolved, body, state, typed, resolves, infers, checks, unit, length, check_unordered infers .reversed⟩

end MiddleEnd
