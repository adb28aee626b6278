import MiddleEnd.Proofs.Source.Inferred
import MiddleEnd.Proofs.Typing.Check

/-! Type safety. A program that is accepted gets stuck only after a binding with recorded
instantiations has added cells to the heap: such cells have no one type. -/

namespace MiddleEnd

variable {program : Surface} {typed : Typed} {settings : Settings}

def Target.number? : Target → Option Nat
  | .bound symbol => some symbol.number
  | .external _ => none

namespace Typed

/-- A binder with a recorded instantiation. One is enough: the one use of a binder inside a polymorphic
function has as many types as the function. -/
def Reuses (program : Typed) (n : Nat) : Prop :=
  ∃ use ∈ program.body.refs, use.target.number? = some n ∧ use.instantiation.isSome

instance (program : Typed) (n : Nat) : Decidable (program.Reuses n) :=
  inferInstanceAs (Decidable
    (∃ use ∈ program.body.refs, use.target.number? = some n ∧ use.instantiation.isSome))

/-- The types of externals, with types in place of the placeholders that are left in them. -/
def Provides (program : Typed) (ground : Nat → Ty) (name : String) (type : Ty) : Prop :=
  ∃ external, program.externals.find? name = some external ∧
    external.type.substGenerics ground = type

end Typed

theorem Store.substGenerics_closed {store : Store} {type : Ty} (plain : (store.expand type).generics = [])
    (ground : Nat → Ty) :
    (store.closed type).substGenerics ground = type.substVars (store.solution ground) := by
  rw [Store.substVars_solution, Store.closed, Ty.substVars, Ty.substGenerics, Ty.subst_subst]
  apply Ty.subst_congr (fun _ _ => rfl)
  intro _ mem
  rw [plain] at mem
  cases mem

theorem Checked.hasType {program : Resolved} {inferred : TypedExpr} {state : Inference}
    {types : List Ty} (checked : Checked program typed inferred state types) (ground : Nat → Ty) :
    HasType (typed.Provides ground) typed.Reuses [] program.body
      (inferred.type.substVars ((state.settle inferred).solution ground)) := by
  have defaulted := state.defaulted_settle inferred
  have solves := defaulted.keeps.solves ((state.settle inferred).solves_solution ground)
  rw [← checked.complete.erased]
  apply checked.complete.derives.hasType solves
  · intro n scheme found
    cases found
  · intro name external found
    have mono := checked.complete.good _ (NameMap.mem_of_find? found)
    refine ⟨mono.generics, { external with type := (state.settle inferred).closed external.type }, ?_, ?_⟩
    · rw [NameMap.find?, checked.externals]
      have mapped := lookup_map_snd (fun external : External =>
        { external with type := (state.settle inferred).closed external.type }) state.externals.entries name
      rw [NameMap.find?] at found
      rw [found] at mapped
      exact mapped
    · exact Store.substGenerics_closed (defaulted.generics mono.plain) ground
  · intro use mem symbol target instantiated
    refine ⟨use.close (state.settle inferred), ?_, ?_, ?_⟩
    · rw [checked.body, Expr.close, Expr.refs_map]
      exact List.mem_map_of_mem mem
    · show use.target.number? = some symbol.number
      rw [target]
      rfl
    · simpa [Use.close] using instantiated

theorem Surface.hasType {resolved : Resolved} (resolves : program.resolve = .ok resolved)
    (checks : resolved.check settings = .ok typed) (ground : Nat → Ty) :
    ∃ type, HasType (typed.Provides ground) typed.Reuses [] resolved.body type := by
  have placed := wellScoped_of_resolve resolves
  obtain ⟨_, _, _, checked⟩ := (Resolved.check_spec placed settings).of_eq checks
  exact ⟨_, checked.hasType ground⟩

/-- An accepted program is not stuck unless a binding with recorded instantiations has added cells,
and until then every external is called with arguments of its parameter types. -/
theorem Surface.stuck_only_after_leak {program : Surface} {resolved : Resolved} {typed : Typed}
    {settings : Settings} (resolves : program.resolve = .ok resolved)
    (checks : resolved.check settings = .ok typed) (ground : Nat → Ty) {world : World}
    (respects : world.Respects (typed.Provides ground) typed.Reuses) (fuel : Nat) :
    Orderly (typed.Provides ground) typed.Reuses (resolved.run world fuel).effects ∧
      (Quiet typed.Reuses (resolved.run world fuel).effects →
        (resolved.run world fuel).outcome ≠ .error .stuck) := by
  obtain ⟨type, has_type⟩ := Surface.hasType resolves checks ground
  obtain ⟨orderly, kept⟩ := Eval.keeps_run respects has_type fuel
  refine ⟨orderly, fun quiet stuck => ?_⟩
  obtain ⟨cells, _, _, ended⟩ := kept quiet
  rw [stuck] at ended
  exact ended rfl

instance {general : Nat → Prop} [DecidablePred general] (effect : Effect) :
    Decidable (effect.Leaks general) :=
  match effect with
  | .bound symbol count => inferInstanceAs (Decidable (general symbol.number ∧ 0 < count))
  | .call _ _ _ => inferInstanceAs (Decidable False)

instance {general : Nat → Prop} [DecidablePred general] (effects : List Effect) :
    Decidable (Quiet general effects) :=
  inferInstanceAs (Decidable (∀ effect ∈ effects, ¬ effect.Leaks general))

def Surface.accepted (program : Surface) (settings : Settings) (test : Resolved → Typed → Bool) : Bool :=
  match program.resolve with
  | .error _ => false
  | .ok resolved =>
    match resolved.check settings with
    | .error _ => false
    | .ok typed => test resolved typed

theorem Surface.exists_of_accepted (program : Surface) (settings : Settings)
    (test : Resolved → Typed → Bool) (accepted : program.accepted settings test = true := by decide +kernel) :
    ∃ resolved typed, program.resolve = .ok resolved ∧ resolved.check settings = .ok typed ∧
      test resolved typed = true := by
  unfold Surface.accepted at accepted
  split at accepted
  · cases accepted
  · next resolved resolves =>
    split at accepted
    · cases accepted
    · next typed checks => exact ⟨resolved, typed, resolves, checks, accepted⟩

def Evaluation.isStuck {α : Type} (evaluation : Evaluation α) : Bool :=
  match evaluation.outcome with
  | .error .stuck => true
  | _ => false

def World.silent : World where
  int op lhs rhs := if op = .add then some (lhs + rhs) else none
  negate n := -n
  float _ lhs _ := lhs
  floatNegate n := n
  compare _ _ _ _ := none
  value name := .external name
  call _ _ _ heap := some (.unit, heap)

/-- `let rec id x = x in let a = [|id 3|] in if id true then emit a.(0) else ()` -/
def Surface.reusedFunction : Surface :=
  let name (text : String) : Ident := ⟨text, default, 0⟩
  let var (text : String) (order : Nat) : Expr Ident Mention TypeExpr Span :=
    .var default ⟨name text, order⟩
  let int (value : Int) : Expr Ident Mention TypeExpr Span := .lit default (.int value)
  { body :=
      .letRec default (name "id") [⟨name "x", none⟩] none (var "x" 0)
        (.letIn default ⟨name "a", none⟩ (.arrayLit default [.apply default (var "id" 1) [int 3]])
          (.cond default (.apply default (var "id" 2) [.lit default (.bool true)])
            (.apply default (var "emit" 3) [.arrayGet default (var "a" 4) (int 0)])
            (.lit default .unit))) }

theorem Surface.stuck_only_after_leak_reusedFunction : ∃ resolved typed,
    reusedFunction.resolve = .ok resolved ∧ resolved.check { seedBuiltins := false } = .ok typed ∧
      World.silent.Respects (typed.Provides .var) typed.Reuses ∧
      Orderly (typed.Provides .var) typed.Reuses (resolved.run .silent 2).effects ∧
      Quiet typed.Reuses (resolved.run .silent 2).effects ∧
      (resolved.run .silent 2).outcome ≠ .error .stuck := by
  obtain ⟨resolved, typed, resolves, checks, test⟩ :=
    exists_of_accepted reusedFunction { seedBuiltins := false } fun resolved typed =>
      decide (typed.externals.entries = [("emit", ⟨.function [.int] .unit, "emit"⟩)]) &&
        decide (Quiet typed.Reuses (resolved.run .silent 2).effects)
  rw [Bool.and_eq_true, decide_eq_true_eq, decide_eq_true_eq] at test
  obtain ⟨externals, quiet⟩ := test
  have provided {name : String} {type : Ty} (provides : typed.Provides .var name type) :
      name = "emit" ∧ type = .function [.int] .unit := by
    obtain ⟨external, found, rfl⟩ := provides
    have member := NameMap.mem_of_find? found
    rw [externals, List.mem_singleton] at member
    cases member
    exact ⟨rfl, by simp [Ty.substGenerics, Ty.int, Ty.unit]⟩
  have respects : World.silent.Respects (typed.Provides .var) typed.Reuses := by
    constructor
    · intro name type provides
      obtain ⟨rfl, rfl⟩ := provided provides
      exact .external provides
    · intro count name types cells result args heap heap' value provides heap_typed args_typed returns
      obtain ⟨rfl, same⟩ := provided provides
      cases same
      cases returns
      exact ⟨cells, List.prefix_refl cells, heap_typed, .lit⟩
  have safe := stuck_only_after_leak resolves checks .var respects 2
  exact ⟨resolved, typed, resolves, checks, respects, safe.1, quiet, safe.2 quiet⟩

/-- `let a = Array.make 1 None in let u = a.(0) <- Some 1 in match a.(0) with Some b -> not b | None -> true`
is accepted: the array is used as an array of integers and as one of truth values. -/
def Surface.reusedArray : Surface :=
  let name (text : String) : Ident := ⟨text, default, 0⟩
  let var (text : String) (order : Nat) : Expr Ident Mention TypeExpr Span :=
    .var default ⟨name text, order⟩
  let int (value : Int) : Expr Ident Mention TypeExpr Span := .lit default (.int value)
  { body :=
      .letIn default ⟨name "a", none⟩ (.arrayMake default (int 1) (.none default))
        (.letIn default ⟨name "u", none⟩
          (.arraySet default (var "a" 0) (int 0) (.some default (int 1)))
          (.matchOption default (.arrayGet default (var "a" 1) (int 0)) ⟨name "b", none⟩
            (.unary default .not (var "b" 2)) (.lit default (.bool true)))) }

theorem Surface.reusedArray_stuck : ∃ resolved typed,
    reusedArray.resolve = .ok resolved ∧ resolved.check { seedBuiltins := false } = .ok typed ∧
      (∀ ground, World.silent.Respects (typed.Provides ground) typed.Reuses) ∧
      (resolved.run .silent 1).outcome = .error .stuck := by
  obtain ⟨resolved, typed, resolves, checks, test⟩ :=
    exists_of_accepted reusedArray { seedBuiltins := false } fun resolved typed =>
      decide (typed.externals.entries = []) && (resolved.run .silent 1).isStuck
  rw [Bool.and_eq_true, decide_eq_true_eq] at test
  obtain ⟨externals, stuck⟩ := test
  have nothing {ground : Nat → Ty} {name : String} {type : Ty} : ¬ typed.Provides ground name type := by
    rintro ⟨external, found, _⟩
    have member := NameMap.mem_of_find? found
    rw [externals] at member
    cases member
  refine ⟨resolved, typed, resolves, checks, fun ground => ?_, ?_⟩
  · exact ⟨fun provides => absurd provides nothing, fun provides => absurd provides nothing⟩
  · unfold Evaluation.isStuck at stuck
    split at stuck
    · next halted => exact halted
    · cases stuck

end MiddleEnd
