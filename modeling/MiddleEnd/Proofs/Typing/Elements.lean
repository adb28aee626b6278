import MiddleEnd.Proofs.Typing.Defaults
import MiddleEnd.Proofs.Typing.Sites

/-! The elements of empty literals. Inference notes their variables, and those that they are instantiated
to. A noted variable that is linked to another one becomes unit only if the other one does. -/

namespace MiddleEnd

open List

variable {program : Resolved} {settings : Settings} {body : TypedExpr} {state : Inference}
  {store : Store} {expr : TypedExpr} {n root : Nat} {fine : String → Prop} {final : TypedExpr}
  {chosen : Nat → Prop}

namespace Expr

theorem note_of_element (same : expr.element? = n) : ∃ con, expr.note.type = .app con (.var n) := by
  unfold element? at same
  split at same
  case h_3 => cases same
  all_goals
    split at same
    · next type =>
      cases same
      exact ⟨_, type⟩
    · cases same

/-- The variables for the elements of empty literals, and those that they were instantiated to. -/
inductive Element (expr : TypedExpr) : Nat → Prop
  | literal {n : Nat} (empty : expr.HasEmpty n) : Element expr n
  | copy {generic n : Nat} {use : Use} (element : Element expr generic) (member : use ∈ expr.refs)
      (copies : use.Copies generic n) : Element expr n

end Expr

section

theorem Resolved.notes_of_run (placed : program.WellScoped fine)
    (infers : (Infer.program program).run (.start settings) = .ok (body, state)) :
    Notes (.start settings) [body] state ∧ state.Dated := by
  have dated : (Inference.start settings).Dated := forall_mem_nil _
  have notes := ((Infer.program_spec placed (good_builtins settings.seedBuiltins)).of_run infers).2 dated
  exact ⟨notes, notes.dated dated⟩

theorem Resolved.noted_iff (placed : program.WellScoped fine)
    (infers : (Infer.program program).run (.start settings) = .ok (body, state)) (n : Nat) :
    n ∈ state.empties ↔ body.Element n := by
  have notes := (notes_of_run placed infers).1
  constructor
  · intro noted
    -- a copy is noted after what it was copied from
    induction n using Nat.strongRecOn with
    | ind _ ih =>
      rcases notes.added noted with before | ⟨-, expr, mem, cause⟩
      · cases before
      · obtain rfl := mem_singleton.mp mem
        rcases cause with empty | ⟨use, used, generic, noted, copies⟩
        · exact .literal empty
        · exact .copy (ih generic copies.lt noted) used copies
  · intro element
    induction element with
    | literal empty => exact notes.literal (mem_singleton_self _) empty
    | copy _ used copies ih => exact (notes.copy (mem_singleton_self _) used copies).2 ih

end

/-! ### What is left of them -/

namespace Store

variable {later : Store}

theorem expand_eq_unit {type : Ty} : store.expand type = .unit ↔ store.resolve type = .unit := by
  rw [← expand_resolve]
  cases head : store.resolve type with
  | var _ => simp [expand_of_unlinked (resolve_eq_var head), Ty.unit]
  | _ => simp [Ty.unit]

/-- Whether a variable stands for an unlinked one that was never generalized. -/
structure OpenAt (store : Store) (n root : Nat) : Prop where
  resolve : store.resolve (.var n) = .var root
  unfrozen : store.isGeneralized root = false

theorem OpenAt.undetermined (open_ : store.OpenAt n root) (made : n < store.size) :
    store.Undetermined root := by
  have covers : store.Covers (.var n) := fun _ mem => mem_singleton.mp mem ▸ made
  exact ⟨(open_.resolve ▸ covers.resolve) root (mem_singleton_self root), resolve_eq_var open_.resolve,
    open_.unfrozen⟩

theorem UnitAt.openAt_iff (units : store.UnitAt chosen later) (made : n < store.size) :
    later.OpenAt n root ↔ store.OpenAt n root ∧ ¬chosen root := by
  constructor
  · intro open_
    have free := units.undetermined_iff.mp (open_.undetermined (units.size_eq.symm ▸ made))
    refine ⟨⟨expand_eq_var.mp ?_, free.1.unfrozen⟩, free.2⟩
    have final := expand_eq_var.mpr open_.resolve
    rw [← units.defaulted.keeps.expand_expand] at final
    cases before : store.expand (.var n) with
    | var between =>
      have unlinked : store.link? between = none :=
        link?_of_mem_expand (by rw [before]; exact mem_singleton_self between)
      rw [before] at final
      rcases units.defaulted.expand_eq unlinked with kept | unit
      · exact kept.symm.trans final
      · cases unit.symm.trans final
    | _ => simp [before] at final
  · rintro ⟨open_, spared⟩
    have free := units.undetermined_iff.mpr ⟨open_.undetermined made, spared⟩
    refine ⟨expand_eq_var.mp ?_, free.unfrozen⟩
    rw [← units.defaulted.keeps.expand_expand, expand_eq_var.mpr open_.resolve, expand_of_unlinked free.unlinked]

theorem UnitAt.resolve_eq_unit (units : store.UnitAt chosen later) (made : n < store.size)
    (open_ : store.OpenAt n root) (mem : chosen root) :
    later.resolve (.var n) = .unit := by
  rw [← expand_eq_unit, ← units.defaulted.keeps.expand_expand, expand_eq_var.mpr open_.resolve,
    expand_of_linked (units.unit (open_.undetermined made) mem)]
  rfl

end Store

/-- Whether nothing makes a variable unit, although nothing is known about it. -/
structure Inference.Spares (state : Inference) (body : TypedExpr) (n : Nat) : Prop where
  element : ¬body.Element n
  discarded : ∀ bound ∈ body.names, bound.symbol.isWildcard = true →
    n ∉ (state.store.expand bound.type).vars
  result : ∀ entry ∈ state.externals.entries, ∀ params,
    state.store.expand entry.2.type ≠ .function params (.var n)

theorem Inference.spares_iff (noted : n ∈ state.empties ↔ body.Element n) :
    state.Spares body n ↔ ¬∃ default ∈ state.defaults body, default.Names state.store n := by
  simp only [defaults, mem_append, mem_map, mem_filter]
  constructor
  · rintro ⟨element, discarded, result⟩
      ⟨_, (⟨_, there, rfl⟩ | ⟨bound, ⟨there, wild⟩, rfl⟩) | ⟨entry, there, rfl⟩, names⟩
    · cases names
      exact element (noted.mp there)
    · exact discarded bound there wild names
    · obtain ⟨params, same⟩ := names
      exact result entry there params same
  · intro unnamed
    refine ⟨fun element => unnamed ⟨_, .inl (.inl ⟨n, noted.mpr element, rfl⟩), rfl⟩,
      fun bound there wild mem => unnamed ⟨_, .inl (.inr ⟨bound, ⟨there, wild⟩, rfl⟩), mem⟩,
      fun entry there params same => unnamed ⟨_, .inr ⟨entry, there, rfl⟩, params, same⟩⟩

namespace Close

section

variable (run : Close.expr store expr = .ok final)
include run

theorem exists_of_part {part : List Bound × TypedExpr}
    (mem : part ∈ expr.parts) :
    ∃ final, Close.expr store part.2 = .ok final := by
  have there := mem_map_of_mem (f := Prod.snd) mem
  rw [← Expr.definitions_parts] at there
  obtain ⟨other, inside, same⟩ := mem_map.mp there
  exact same ▸ (expr_visits run).2 other inside

theorem closes_of_empty (empty : expr.HasEmpty n) : store.Closes (.var n) := by
  induction empty generalizing final with
  | part mem _ ih =>
    obtain ⟨_, part_run⟩ := exists_of_part run mem
    exact ih part_run
  | @here expr n same =>
    have own := (expr_visits run).1 _ (.head _)
    obtain ⟨_, type⟩ := Expr.note_of_element same
    refine own.of_subset fun _ mem => ?_
    rw [show Site.type _ = _ from type]
    exact mem

theorem exists_of_ref {use : Use} (mem : use ∈ expr.refs) :
    ∃ final, Close.use store use = .ok final := by
  induction expr using Expr.part_induction generalizing final with
  | step expr ih =>
    rw [expr.refs_eq, mem_append, mem_flatMap] at mem
    rcases mem with own | ⟨part, inside, mem⟩
    · cases expr <;> simp [Expr.ref?] at own
      subst own
      obtain ⟨_, -, run⟩ := bind_eq_ok.mp run
      obtain ⟨final, run, -⟩ := bind_eq_ok.mp run
      exact ⟨final, run⟩
    · obtain ⟨_, part_run⟩ := exists_of_part run inside
      exact ih part inside part_run mem

end

theorem closes_of_mapping {mapping final : List (Nat × Ty)} (run : Close.mapping store mapping = .ok final) :
    ∀ entry ∈ mapping, store.Closes entry.2 := by
  induction mapping generalizing final with
  | nil => exact forall_mem_nil _
  | cons _ _ ih =>
    obtain ⟨_, first_run, run⟩ := bind_eq_ok.mp run
    obtain ⟨_, rest_run, -⟩ := bind_eq_ok.mp run
    refine forall_mem_cons.mpr ⟨?_, ih rest_run⟩
    unfold instanceType at first_run
    split at first_run
    · next found => exact (Store.close?_eq_some.mp found).1
    · cases first_run

theorem closes_of_element (run : Close.expr store expr = .ok final) (element : expr.Element n) :
    store.Closes (.var n) := by
  cases element with
  | literal empty => exact closes_of_empty run empty
  | @copy generic _ use _ mem copies =>
    obtain ⟨_, taken, there, -⟩ := copies
    obtain ⟨_, use_run⟩ := exists_of_ref run mem
    rw [Close.use, taken] at use_run
    obtain ⟨_, made_run, -⟩ := bind_eq_ok.mp use_run
    obtain ⟨_, mapping_run, -⟩ := bind_eq_ok.mp made_run
    exact closes_of_mapping mapping_run _ there

end Close

theorem Resolved.check_unknown (placed : program.WellScoped fine)
    (infers : (Infer.program program).run (.start settings) = .ok (body, state))
    (element : body.Element n) (open_ : (state.settle body).OpenAt n root) :
    ∃ stop, program.check settings = .error stop ∧ stop.IsUnknown := by
  obtain ⟨⟨_, complete⟩, -⟩ := (Infer.program_spec placed (good_builtins settings.seedBuiltins)).of_run infers
  have closed := state.close_spec complete.derives program
  rw [check_of_run infers]
  cases outcome : state.close program body with
  | error stop =>
    rw [outcome] at closed
    exact ⟨stop, rfl, closed⟩
  | ok _ =>
    obtain ⟨_, run, -⟩ := bind_eq_ok.mp outcome
    have frozen := Close.closes_of_element run element root
    rw [Store.expand_eq_var.mpr open_.resolve] at frozen
    cases open_.unfrozen.symm.trans (frozen (mem_singleton_self root))

/-- Elements of empty literals after defaulting. A variable that stands for an unlinked one becomes unit
unless the unlinked one is neither an element itself, nor part of the type of a discarded value, nor the
result of an external. An element that is left open so makes the program be rejected. -/
theorem Surface.elements_settle {program : Surface} {resolved : Resolved} {settings : Settings} {body : TypedExpr}
    {state : Inference} (resolves : program.resolve = .ok resolved)
    (infers : (Infer.program resolved).run (.start settings) = .ok (body, state)) {n : Nat}
    (element : body.Element n) (root : Nat) :
    ((state.settle body).OpenAt n root ↔ state.store.OpenAt n root ∧ state.Spares body root) ∧
      (state.store.OpenAt n root → ¬state.Spares body root →
        (state.settle body).resolve (.var n) = .unit) ∧
      ((state.settle body).OpenAt n root →
        ∃ stop, resolved.check settings = .error stop ∧ stop.IsUnknown) := by
  have placed := wellScoped_of_resolve resolves
  have noted := Resolved.noted_iff placed infers
  have made : n < state.store.size :=
    (Resolved.notes_of_run placed infers).2 n ((noted n).mpr element)
  have units := state.unitAt_settle body
  have spares := Inference.spares_iff (noted root)
  refine ⟨?_, fun open_ named => ?_, fun open_ => ?_⟩
  · rw [units.openAt_iff made, spares]
  · rw [spares, not_not] at named
    exact units.resolve_eq_unit made open_ named
  · exact Resolved.check_unknown placed infers element open_

def Surface.inferred (program : Surface) (settings : Settings) (test : TypedExpr → Inference → Bool) : Bool :=
  match program.resolve with
  | .error _ => false
  | .ok resolved =>
    match (Infer.program resolved).run (.start settings) with
    | .error _ => false
    | .ok (body, state) => test body state

theorem Surface.exists_of_inferred {program : Surface} {test : TypedExpr → Inference → Bool}
    (inferred : program.inferred settings test = true) :
    ∃ resolved body state, program.resolve = .ok resolved ∧
      (Infer.program resolved).run (.start settings) = .ok (body, state) ∧ test body state = true := by
  unfold Surface.inferred at inferred
  split at inferred
  · cases inferred
  · next resolved resolves =>
    split at inferred
    · cases inferred
    · next body state infers => exact ⟨resolved, body, state, resolves, infers, inferred⟩

/-- `let rec loop x = loop x in if true then None else Some (loop 1)`, or with the arms swapped. -/
def Surface.loopOption (emptyFirst : Bool) : Surface :=
  let name (text : String) : Ident := ⟨text, default, 0⟩
  let loop (order : Nat) (arg : Expr Ident Mention TypeExpr Span) : Expr Ident Mention TypeExpr Span :=
    .apply default (.var default ⟨name "loop", order⟩) [arg]
  let full : Expr Ident Mention TypeExpr Span := .some default (loop 2 (.lit default (.int 1)))
  let (yes, no) := if emptyFirst then (.none default, full) else (full, .none default)
  { body :=
      .letRec default (name "loop") [⟨name "x", none⟩] none (loop 0 (.var default ⟨name "x", 1⟩))
        (.cond default (.lit default (.bool true)) yes no) }

theorem Surface.loopOption_open : ∃ resolved body state, (loopOption true).resolve = .ok resolved ∧
    (Infer.program resolved).run (.start {}) = .ok (body, state) ∧ body.Element 3 ∧
    (state.settle body).OpenAt 3 6 := by
  have inferred : (loopOption true).inferred {} (fun body state => decide (3 ∈ state.empties ∧
      (state.settle body).resolve (.var 3) = .var 6 ∧ (state.settle body).isGeneralized 6 = false)) = true := by
    decide +kernel
  obtain ⟨resolved, body, state, resolves, infers, test⟩ := exists_of_inferred inferred
  obtain ⟨noted, resolve, unfrozen⟩ := of_decide_eq_true test
  have element := (Resolved.noted_iff (wellScoped_of_resolve resolves) infers 3).mp noted
  exact ⟨resolved, body, state, resolves, infers, element, resolve, unfrozen⟩

/-- The first arm gives way to the second: the element of the literal is linked to the result of the
call, about which nothing is known. -/
theorem Surface.elements_settle_loopOption : ∃ resolved body state, (loopOption true).resolve = .ok resolved ∧
    (Infer.program resolved).run (.start {}) = .ok (body, state) ∧ body.Element 3 ∧
    (state.settle body).OpenAt 3 6 ∧ state.Spares body 6 ∧
    ∃ stop, resolved.check {} = .error stop ∧ stop.IsUnknown := by
  obtain ⟨resolved, body, state, resolves, infers, element, open_⟩ := loopOption_open
  have settled := elements_settle resolves infers element 6
  exact ⟨resolved, body, state, resolves, infers, element, open_, (settled.1.mp open_).2, settled.2.2 open_⟩

/-- The element of an empty literal can be left open, and whether the program is then rejected depends on
the order of the arms. -/
theorem Surface.loopOption_arms :
    (∃ resolved stop, (loopOption true).resolve = .ok resolved ∧ resolved.check {} = .error stop ∧ stop.IsUnknown) ∧
      ∃ resolved typed, (loopOption false).resolve = .ok resolved ∧ resolved.check {} = .ok typed ∧
        typed.body.type = .option .unit := by
  constructor
  · obtain ⟨resolved, body, state, resolves, infers, element, open_⟩ := loopOption_open
    obtain ⟨stop, checks, unknown⟩ :=
      Resolved.check_unknown (wellScoped_of_resolve resolves) infers element open_
    exact ⟨resolved, stop, resolves, checks, unknown⟩
  · obtain ⟨resolved, typed, resolves, checks, test⟩ :=
      exists_of_accepted (loopOption false) {} fun _ typed => decide (typed.body.type = .option .unit)
    exact ⟨resolved, typed, resolves, checks, of_decide_eq_true test⟩

end MiddleEnd
