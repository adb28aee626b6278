import MiddleEnd.Proofs.Source.Rules

/-! Typed programs do not get stuck. A binding with recorded instantiations must not add cells to
the heap: a cell has one type only. As long as no such binding has, every value has its type. -/

namespace MiddleEnd

open List

variable {value lhs rhs : Val} {type : Ty} {index base size : Nat} {scope : Scope}
  {env : List (Nat × Val)} {symbols : List Symbol} {α β : Type} {memory : Memory}
  {post : List Ty → α → Prop} {op : BinaryOp} {call : Val → List Val → EvalM Val}
  {provides : String → Ty → Prop} {general : Nat → Prop} {cells cells' : List Ty} {values : List Val}
  {types : List Ty}

theorem ValTyped.grow (typed : ValTyped provides general cells value type) (grown : cells <+: cells') :
    ValTyped provides general cells' value type := by
  induction typed with
  | lit => exact .lit
  | tuple arity _ ih => exact .tuple arity ih
  | array inside =>
    apply ValTyped.array
    intro index small
    have here := inside index small
    have bound : _ < cells.length := (List.getElem?_eq_some_iff.mp here).1
    obtain ⟨_, rfl⟩ := grown
    rw [getElem?_append_left bound, here]
  | some _ ih => exact .some ih
  | none => exact .none
  | closure arity found _ body_typed ih => exact .closure arity found ih body_typed
  | external provided => exact .external provided

namespace AllTyped

theorem nil : AllTyped provides general cells [] [] := ⟨rfl, fun _ mem => nomatch mem⟩

theorem cons (first : ValTyped provides general cells value type)
    (rest : AllTyped provides general cells values types) :
    AllTyped provides general cells (value :: values) (type :: types) := by
  constructor
  · simp [rest.arity]
  · intro pair mem
    rw [zip_cons_cons, mem_cons] at mem
    rcases mem with rfl | mem
    · exact first
    · exact rest.each pair mem

theorem append {values' : List Val} {types' : List Ty}
    (front : AllTyped provides general cells values types)
    (back : AllTyped provides general cells values' types') :
    AllTyped provides general cells (values ++ values') (types ++ types') := by
  constructor
  · simp [front.arity, back.arity]
  · intro pair mem
    rw [zip_append front.arity, mem_append] at mem
    exact mem.elim (front.each pair) (back.each pair)

section

variable (typed : AllTyped provides general cells values types)
include typed

theorem grow (grown : cells <+: cells') : AllTyped provides general cells' values types :=
  ⟨typed.arity, fun pair mem => (typed.each pair mem).grow grown⟩

theorem get (value_here : values[index]? = some value) (type_here : types[index]? = some type) :
    ValTyped provides general cells value type := by
  have both : (values.zip types)[index]? = some (value, type) := by
    rw [getElem?_zip_eq_some]
    exact ⟨value_here, type_here⟩
  exact typed.each _ (mem_of_getElem? both)

theorem exists_of_type (type_here : types[index]? = some type) :
    ∃ value, values[index]? = some value ∧ ValTyped provides general cells value type := by
  have bound : index < values.length := by
    rw [typed.arity]
    exact (List.getElem?_eq_some_iff.mp type_here).1
  exact ⟨values[index], getElem?_eq_getElem bound, typed.get (getElem?_eq_getElem bound) type_here⟩

theorem set (type_here : types[index]? = some type)
    (value_typed : ValTyped provides general cells value type) :
    AllTyped provides general cells (values.set index value) types := by
  constructor
  · simp [typed.arity]
  · intro pair mem
    obtain ⟨other, there⟩ := mem_iff_getElem?.mp mem
    rw [getElem?_zip_eq_some, getElem?_set] at there
    by_cases same : index = other
    · subst same
      obtain ⟨first, second⟩ := there
      rw [if_pos rfl] at first
      split at first
      · rw [type_here] at second
        cases first
        cases second
        exact value_typed
      · cases first
    · rw [if_neg same] at there
      exact typed.get there.1 there.2

end

end AllTyped

namespace EnvTyped

theorem nil : EnvTyped provides general cells [] [] := ⟨nofun, nofun⟩

section

variable (typed : EnvTyped provides general cells scope env)
include typed

theorem grow (grown : cells <+: cells') : EnvTyped provides general cells' scope env :=
  ⟨typed.found, fun n scheme value here there choice =>
    (typed.held n scheme value here there choice).grow grown⟩

theorem bind {n : Nat} {scheme : Scheme}
    (value_typed : ∀ choice, ValTyped provides general cells value (scheme choice)) :
    EnvTyped provides general cells ((n, scheme) :: scope) ((n, value) :: env) := by
  constructor
  · intro other scheme' found
    rw [List.lookup_cons] at found ⊢
    cases same : other == n with
    | true => rfl
    | false =>
      rw [same] at found
      exact typed.found other scheme' found
  · intro other scheme' value' found held
    rw [List.lookup_cons] at found held
    cases same : other == n with
    | true =>
      rw [same] at found held
      cases found
      cases held
      exact value_typed
    | false =>
      rw [same] at found held
      exact typed.held other scheme' value' found held

theorem bindAll {schemes : List Scheme} (arity : values.length = schemes.length)
    (each : ∀ pair ∈ values.zip schemes, ∀ choice,
      ValTyped provides general cells pair.1 (pair.2 choice)) :
    EnvTyped provides general cells (scope.bindAll symbols schemes) (Eval.bindAll env symbols values) := by
  induction symbols generalizing scope env schemes values with
  | nil => exact typed
  | cons _ _ ih =>
    cases schemes with
    | nil =>
      rw [length_eq_zero_iff.mp arity]
      exact typed
    | cons _ _ =>
      cases values with
      | nil => cases arity
      | cons _ _ =>
        rw [zip_cons_cons] at each
        exact ih (typed.bind (each _ (.head _))) (by simpa using arity)
          fun pair mem => each pair (.tail _ mem)

end

end EnvTyped

/-! ### Runs that keep every value at its type -/

def Effect.Leaks (general : Nat → Prop) : Effect → Prop
  | .bound symbol count => general symbol.number ∧ 0 < count
  | .call _ _ _ => False

def Effect.Safe (provides : String → Ty → Prop) (general : Nat → Prop) : Effect → Prop
  | .bound _ _ => True
  | .call name args heap => ∃ types result cells, provides name (.function types result) ∧
    HeapTyped provides general cells heap ∧ AllTyped provides general cells args types

def Quiet (general : Nat → Prop) (effects : List Effect) : Prop :=
  ∀ effect ∈ effects, ¬ effect.Leaks general

/-- What happens before the first leak is safe. -/
def Orderly (provides : String → Ty → Prop) (general : Nat → Prop) (effects : List Effect) : Prop :=
  ∀ front effect back, effects = front ++ effect :: back → Quiet general front →
    effect.Safe provides general

theorem Orderly.nil : Orderly provides general [] := by
  intro _ _ _ split
  simp at split

theorem Orderly.append {first second : List Effect} (first_orderly : Orderly provides general first)
    (second_orderly : Quiet general first → Orderly provides general second) :
    Orderly provides general (first ++ second) := by
  intro front effect back split quiet
  rcases append_eq_append_iff.mp split with ⟨middle, rfl, rest⟩ | ⟨middle, rfl, rest⟩
  · have first_quiet : Quiet general first := fun other mem =>
      quiet other (mem_append_left _ mem)
    exact second_orderly first_quiet middle effect back rest fun other mem =>
      quiet other (mem_append_right _ mem)
  · cases middle with
    | nil => exact second_orderly (by simpa using quiet) [] effect back rest.symm nofun
    | cons _ middle =>
      cases rest
      exact first_orderly front effect middle rfl quiet

def Keeps (provides : String → Ty → Prop) (general : Nat → Prop) {α : Type} (cells : List Ty)
    (evaluation : Evaluation α) (post : List Ty → α → Prop) : Prop :=
  Orderly provides general evaluation.effects ∧
    (Quiet general evaluation.effects → ∃ later, cells <+: later ∧
      HeapTyped provides general later evaluation.memory.heap ∧
      match evaluation.outcome with
      | .ok value => post later value
      | .error halt => halt ≠ .stuck)

namespace Keeps

theorem pure {value : α} (heap_typed : HeapTyped provides general cells memory.heap)
    (holds : post cells value) :
    Keeps provides general cells ((Pure.pure value : EvalM α) memory) post :=
  ⟨.nil, fun _ => ⟨cells, prefix_refl cells, heap_typed, holds⟩⟩

theorem halt {reason : Halt} (heap_typed : HeapTyped provides general cells memory.heap)
    (unstuck : reason ≠ .stuck) :
    Keeps provides general cells ((Eval.halt reason : EvalM α) memory) post :=
  ⟨.nil, fun _ => ⟨cells, prefix_refl cells, heap_typed, unstuck⟩⟩

theorem bind {first : EvalM α} {next : α → EvalM β} {between : List Ty → α → Prop}
    {post : List Ty → β → Prop} (first_keeps : Keeps provides general cells (first memory) between)
    (next_keeps : ∀ later value middle, cells <+: later → HeapTyped provides general later middle.heap →
      between later value → Keeps provides general later (next value middle) post) :
    Keeps provides general cells ((first >>= next) memory) post := by
  obtain ⟨orderly, kept⟩ := first_keeps
  simp only [Bind.bind]
  match ran : first memory with
  | ⟨.error reason, later, effects⟩ =>
    rw [ran] at orderly kept
    exact ⟨orderly, kept⟩
  | ⟨.ok value, middle, effects⟩ =>
    rw [ran] at orderly kept
    constructor
    · apply orderly.append
      intro quiet
      obtain ⟨later, grown, heap_typed, holds⟩ := kept quiet
      exact (next_keeps later value middle grown heap_typed holds).1
    · intro quiet
      obtain ⟨later, grown, heap_typed, holds⟩ := kept fun effect mem =>
        quiet effect (mem_append_left _ mem)
      obtain ⟨last, grown', rest⟩ := (next_keeps later value middle grown heap_typed holds).2
        fun effect mem => quiet effect (mem_append_right _ mem)
      exact ⟨last, grown.trans grown', rest⟩

end Keeps

/-! ### The shape of a value from its type -/

namespace ValTyped

theorem prim {primitive : Primitive} (typed : ValTyped provides general cells value (.prim primitive)) :
    ∃ literal : Literal, value = .lit literal ∧ literal.ty = .prim primitive := by
  generalize same : Ty.prim primitive = type at typed
  cases typed with
  | lit => exact ⟨_, rfl, rfl⟩
  | _ => cases same

theorem bool (typed : ValTyped provides general cells value .bool) : ∃ truth, value = .bool truth := by
  obtain ⟨literal, rfl, same⟩ := typed.prim
  cases literal with
  | bool truth => exact ⟨truth, rfl⟩
  | _ => cases same

theorem int (typed : ValTyped provides general cells value .int) : ∃ n, value = .int n := by
  obtain ⟨literal, rfl, same⟩ := typed.prim
  cases literal with
  | int n => exact ⟨n, rfl⟩
  | _ => cases same

theorem float (typed : ValTyped provides general cells value .float) : ∃ n, value = .float n := by
  obtain ⟨literal, rfl, same⟩ := typed.prim
  cases literal with
  | float n => exact ⟨n, rfl⟩
  | _ => cases same

theorem of_tuple (typed : ValTyped provides general cells value (.tuple types)) :
    ∃ values, value = .tuple values ∧ AllTyped provides general cells values types := by
  generalize same : Ty.tuple types = type at typed
  cases typed with
  | tuple arity elements =>
    cases same
    exact ⟨_, rfl, arity, elements⟩
  | lit =>
    rename_i literal
    cases literal <;> cases same
  | _ => cases same

theorem of_array (typed : ValTyped provides general cells value (.array type)) :
    ∃ base size, value = .array base size ∧ ∀ index < size, cells[base + index]? = Option.some type := by
  generalize same : Ty.array type = array at typed
  cases typed with
  | array inside =>
    cases same
    exact ⟨_, _, rfl, inside⟩
  | lit =>
    rename_i literal
    cases literal <;> cases same
  | _ => cases same

theorem of_option (typed : ValTyped provides general cells value (.option type)) :
    value = .none ∨ ∃ element, value = .some element ∧ ValTyped provides general cells element type := by
  generalize same : Ty.option type = option at typed
  cases typed with
  | none => exact .inl rfl
  | some content =>
    cases same
    exact .inr ⟨_, rfl, content⟩
  | lit =>
    rename_i literal
    cases literal <;> cases same
  | _ => cases same

end ValTyped

/-! ### Operations -/

namespace Eval

variable {world : World}

section

variable (heap_typed : HeapTyped provides general cells memory.heap)
include heap_typed

theorem keeps_allocate (values_typed : ∀ value ∈ values, ValTyped provides general cells value type) :
    Keeps provides general cells (allocate values memory) fun later value =>
      ValTyped provides general later value (.array type) := by
  let later := cells ++ replicate values.length type
  have grown : cells <+: later := prefix_append _ _
  refine ⟨.nil, fun _ => ⟨later, grown, ?_, ?_⟩⟩
  · have added : AllTyped provides general later values (replicate values.length type) := by
      constructor
      · simp
      · intro pair mem
        have here := of_mem_zip mem
        rw [eq_of_mem_replicate here.2]
        exact (values_typed pair.1 here.1).grow grown
    exact AllTyped.append (heap_typed.grow grown) added
  · apply ValTyped.array
    intro _ small
    have length : memory.heap.length = cells.length := heap_typed.arity
    simp [later, length, small]

theorem keeps_load {index : Int} (inside : ∀ index < size, cells[base + index]? = some type) :
    Keeps provides general cells (load base size index memory) fun later value =>
      ValTyped provides general later value type := by
  unfold load
  split
  · next within =>
    obtain ⟨value, here, typed⟩ := heap_typed.exists_of_type (inside index.toNat (by omega))
    rw [here]
    exact ⟨.nil, fun _ => ⟨cells, prefix_refl cells, heap_typed, typed⟩⟩
  · exact ⟨.nil, fun _ => ⟨cells, prefix_refl cells, heap_typed, nofun⟩⟩

theorem keeps_store {index : Int} (inside : ∀ index < size, cells[base + index]? = some type)
    (value_typed : ValTyped provides general cells value type) :
    Keeps provides general cells (store base size index value memory) fun later value =>
      ValTyped provides general later value .unit := by
  unfold store
  split
  · next within =>
    have stored := heap_typed.set (inside index.toNat (by omega)) value_typed
    exact ⟨.nil, fun _ => ⟨cells, prefix_refl cells, stored, .lit⟩⟩
  · exact ⟨.nil, fun _ => ⟨cells, prefix_refl cells, heap_typed, nofun⟩⟩

theorem keeps_unary {op : UnaryOp} (value_typed : ValTyped provides general cells value op.operand) :
    Keeps provides general cells (unary world op value memory) fun later value =>
      ValTyped provides general later value op.operand := by
  cases op with
  | not =>
    obtain ⟨_, rfl⟩ := value_typed.bool
    exact .pure heap_typed .lit
  | negate =>
    obtain ⟨n, rfl⟩ := value_typed.int
    exact .pure heap_typed .lit
  | floatNegate =>
    obtain ⟨n, rfl⟩ := value_typed.float
    exact .pure heap_typed .lit

theorem keeps_compare :
    Keeps provides general cells (compare world op lhs rhs memory) fun later value =>
      ValTyped provides general later value .bool := by
  unfold compare
  split
  · exact ⟨.nil, fun _ => ⟨cells, prefix_refl cells, heap_typed, .lit⟩⟩
  · exact ⟨.nil, fun _ => ⟨cells, prefix_refl cells, heap_typed, nofun⟩⟩

theorem keeps_orTrap {value : Option α} :
    Keeps provides general cells (orTrap value memory) fun _ _ => True := by
  cases value with
  | some _ => exact .pure heap_typed trivial
  | none => exact .halt heap_typed nofun

end

theorem keeps_binary (known : op.operand? = some type)
    (heap_typed : HeapTyped provides general cells memory.heap)
    (lhs_typed : ValTyped provides general cells lhs type)
    (rhs_typed : ValTyped provides general cells rhs type) :
    Keeps provides general cells (binary world op lhs rhs memory) fun later value =>
      ValTyped provides general later value type := by
  unfold BinaryOp.operand? at known
  unfold binary
  cases shape : op.operatorClass with
  | intArithmetic =>
    rw [shape] at known
    cases known
    obtain ⟨left, rfl⟩ := lhs_typed.int
    obtain ⟨right, rfl⟩ := rhs_typed.int
    apply Keeps.bind (keeps_orTrap heap_typed)
    intro _ _ _ _ heap_typed _
    exact .pure heap_typed .lit
  | floatArithmetic =>
    rw [shape] at known
    cases known
    obtain ⟨left, rfl⟩ := lhs_typed.float
    obtain ⟨right, rfl⟩ := rhs_typed.float
    exact .pure heap_typed .lit
  | logical =>
    rw [shape] at known
    cases known
    obtain ⟨left, rfl⟩ := lhs_typed.bool
    obtain ⟨right, rfl⟩ := rhs_typed.bool
    exact .pure heap_typed .lit
  | ordering =>
    rw [shape] at known
    cases known
  | equality =>
    rw [shape] at known
    cases known

theorem keeps_callExternal (respects : world.Respects provides general) {name : String} {result : Ty}
    {args : List Val} (provided : provides name (.function types result))
    (heap_typed : HeapTyped provides general cells memory.heap)
    (args_typed : AllTyped provides general cells args types) :
    Keeps provides general cells (callExternal world name args memory) fun later value =>
      ValTyped provides general later value result := by
  have orderly : Orderly provides general [.call name args memory.heap] := by
    intro _ effect _ split _
    have mem : effect ∈ [Effect.call name args memory.heap] := by simp [split]
    rw [mem_singleton.mp mem]
    exact ⟨types, result, cells, provided, heap_typed, args_typed⟩
  unfold callExternal
  split
  · next value heap returns =>
    obtain ⟨later, grown, later_typed, value_typed⟩ :=
      respects.call provided heap_typed args_typed returns
    exact ⟨orderly, fun _ => ⟨later, grown, later_typed, value_typed⟩⟩
  · exact ⟨orderly, fun _ => ⟨cells, prefix_refl cells, heap_typed, nofun⟩⟩

theorem orderly_bound (symbols : List Symbol) (count : Nat) :
    Orderly provides general (symbols.map (Effect.bound · count)) := by
  intro _ effect _ split _
  have mem : effect ∈ symbols.map (Effect.bound · count) := by simp [split]
  obtain ⟨_, _, rfl⟩ := mem_map.mp mem
  trivial

theorem keeps_binding {ι : Type} {bound : EvalM Val} {main : List Ty → Val → Prop}
    {posts : ι → List Ty → Val → Prop} (heap_typed : HeapTyped provides general cells memory.heap)
    (main_keeps : Keeps provides general cells (bound memory) main)
    (each_keeps : ∀ choice, Keeps provides general cells (bound memory) (posts choice)) :
    Keeps provides general cells (binding symbols bound memory) fun later value =>
      main later value ∧
        ((∃ symbol ∈ symbols, general symbol.number) → ∀ choice, posts choice later value) := by
  unfold binding
  match ran : bound memory with
  | ⟨.error reason, last, effects⟩ =>
    rw [ran] at main_keeps
    exact main_keeps
  | ⟨.ok value, last, effects⟩ =>
    rw [ran] at main_keeps
    refine ⟨main_keeps.1.append fun _ => orderly_bound _ _, fun quiet => ?_⟩
    have early : Quiet general effects := fun effect mem =>
      quiet effect (mem_append_left _ mem)
    obtain ⟨later, grown, later_typed, holds⟩ := main_keeps.2 early
    refine ⟨later, grown, later_typed, holds, fun ⟨symbol, mem, reused⟩ choice => ?_⟩
    have none_added : last.heap.length - memory.heap.length = 0 := by
      have quiet_here := quiet (.bound symbol (last.heap.length - memory.heap.length))
        (mem_append_right _ (mem_map_of_mem mem))
      have zero : ¬ 0 < last.heap.length - memory.heap.length := fun added => quiet_here ⟨reused, added⟩
      omega
    have unchanged {other : List Ty} (grown : cells <+: other)
        (typed : HeapTyped provides general other last.heap) : cells = other := by
      apply grown.eq_of_length_le
      have before : memory.heap.length = cells.length := heap_typed.arity
      have after : last.heap.length = other.length := typed.arity
      omega
    have kept := each_keeps choice
    rw [ran] at kept
    obtain ⟨other, other_grown, other_typed, other_holds⟩ := kept.2 early
    rw [← unchanged grown later_typed, unchanged other_grown other_typed]
    exact other_holds

def CallsSoundly (provides : String → Ty → Prop) (general : Nat → Prop)
    (call : Val → List Val → EvalM Val) : Prop :=
  ∀ {cells : List Ty} {memory : Memory} {callee : Val} {args : List Val} {types : List Ty} {result : Ty},
    HeapTyped provides general cells memory.heap →
    ValTyped provides general cells callee (.function types result) →
    AllTyped provides general cells args types →
    Keeps provides general cells (call callee args memory) fun later value =>
      ValTyped provides general later value result

def Evaluates (provides : String → Ty → Prop) (general : Nat → Prop) (world : World)
    (call : Val → List Val → EvalM Val) (scope : Scope) (term : Term) (type : Ty) : Prop :=
  ∀ {cells : List Ty} {memory : Memory} {env : List (Nat × Val)},
    HeapTyped provides general cells memory.heap → EnvTyped provides general cells scope env →
    Keeps provides general cells (expr world call env term memory) fun later value =>
      ValTyped provides general later value type

theorem exists_getElem?_of_length {first : List α} {second : List β} {there : β}
    (same : first.length = second.length) (found : second[index]? = some there) :
    ∃ here, first[index]? = some here := by
  have bound := (List.getElem?_eq_some_iff.mp found).1
  rw [← same] at bound
  exact ⟨first[index], getElem?_eq_getElem bound⟩

section

theorem keeps_exprs {terms : List Term} (arity : terms.length = types.length)
    (each : ∀ pair ∈ terms.zip types, Evaluates provides general world call scope pair.1 pair.2)
    (heap_typed : HeapTyped provides general cells memory.heap)
    (env_typed : EnvTyped provides general cells scope env) :
    Keeps provides general cells (exprs world call env terms memory) fun later values =>
      AllTyped provides general later values types := by
  induction terms generalizing types cells memory with
  | nil =>
    rw [length_eq_zero_iff.mp arity.symm]
    exact .pure heap_typed .nil
  | cons _ _ ih =>
    cases types with
    | nil => cases arity
    | cons _ _ =>
      rw [zip_cons_cons] at each
      rw [exprs]
      apply Keeps.bind (each _ (.head _) heap_typed env_typed)
      intro _ _ middle grown heap_typed first_typed
      apply Keeps.bind (ih (by simpa using arity)
        (fun pair mem => each pair (.tail _ mem)) heap_typed (env_typed.grow grown))
      intro _ _ _ grown heap_typed rest_typed
      exact .pure heap_typed (.cons (first_typed.grow grown) rest_typed)

end

section

variable (respects : world.Respects provides general)
include respects

theorem evaluates (calls : CallsSoundly provides general call) {term : Term}
    (typed : HasType provides general scope term type) :
    Evaluates provides general world call scope term type := by
  induction typed with
  | lit =>
    intro _ _ _ heap_typed _
    rw [expr]
    exact .pure heap_typed .lit
  | bound found choice =>
    intro _ _ _ heap_typed env_typed
    obtain ⟨value, here⟩ := Option.isSome_iff_exists.mp (env_typed.found _ _ found)
    simp only [expr, here]
    exact .pure heap_typed (env_typed.held _ _ value found here choice)
  | external provided =>
    intro _ _ _ heap_typed _
    simp only [expr]
    exact .pure heap_typed ((respects.value provided).grow nil_prefix)
  | unary _ operand_ih =>
    intro _ _ _ heap_typed env_typed
    rw [expr]
    apply Keeps.bind (operand_ih heap_typed env_typed)
    intro _ _ _ _ heap_typed operand_typed
    exact keeps_unary heap_typed operand_typed
  | binary known _ _ lhs_ih rhs_ih =>
    intro _ _ _ heap_typed env_typed
    rw [expr]
    apply Keeps.bind (lhs_ih heap_typed env_typed)
    intro _ _ middle grown heap_typed lhs_typed
    apply Keeps.bind (rhs_ih heap_typed (env_typed.grow grown))
    intro _ _ _ grown heap_typed rhs_typed
    exact keeps_binary known heap_typed (lhs_typed.grow grown) rhs_typed
  | compare unknown _ _ lhs_ih rhs_ih =>
    intro _ _ _ heap_typed env_typed
    rw [expr]
    apply Keeps.bind (lhs_ih heap_typed env_typed)
    intro _ _ middle grown heap_typed _
    apply Keeps.bind (rhs_ih heap_typed (env_typed.grow grown))
    intro _ _ _ _ heap_typed _
    unfold BinaryOp.operand? at unknown
    unfold binary
    split at unknown
    · cases unknown
    · cases unknown
    · cases unknown
    · next shape =>
      simp only [shape]
      exact keeps_compare heap_typed
    · next shape =>
      simp only [shape]
      exact keeps_compare heap_typed
  | cond _ _ _ test_ih yes_ih no_ih =>
    intro _ _ _ heap_typed env_typed
    rw [expr]
    apply Keeps.bind (test_ih heap_typed env_typed)
    intro _ _ _ grown heap_typed test_typed
    obtain ⟨truth, rfl⟩ := test_typed.bool
    cases truth with
    | true => exact yes_ih heap_typed (env_typed.grow grown)
    | false => exact no_ih heap_typed (env_typed.grow grown)
  | letIn _ uses _ bound_ih body_ih =>
    intro _ _ _ heap_typed env_typed
    rw [expr]
    let base : Nat → Ty := Ty.var
    apply Keeps.bind (keeps_binding heap_typed (bound_ih base heap_typed env_typed)
      fun choice => bound_ih choice heap_typed env_typed)
    intro later value middle grown heap_typed ⟨base_typed, each_typed⟩
    apply body_ih heap_typed
    apply (env_typed.grow grown).bind
    intro choice
    rcases uses with reused | same
    · exact each_typed ⟨_, mem_singleton_self _, reused⟩ choice
    · rw [same choice base]
      exact base_typed
  | letRec arity body_typed _ _ rest_ih =>
    intro _ _ _ heap_typed env_typed
    rw [expr]
    apply rest_ih heap_typed
    apply env_typed.bind
    intro choice
    exact .closure (by simpa using arity choice) env_typed.found env_typed.held (body_typed choice)
  | @letTuple scope _ binders bound body elements schemes tuples _ _ arity schemes_arity _ parts uses _
      bound_ih parts_ih body_ih =>
    intro _ _ _ heap_typed env_typed
    rw [expr]
    apply Keeps.bind (keeps_binding heap_typed (bound_ih heap_typed env_typed)
      fun (choice : Nat × (Nat → Ty)) => parts_ih choice.1 choice.2 heap_typed env_typed)
    intro later value middle grown heap_typed ⟨base_typed, each_typed⟩
    obtain ⟨values, rfl, values_typed⟩ := base_typed.of_tuple
    have fits : values.length = (binders.map Binder.name).length := by
      rw [values_typed.arity, arity, length_map]
    simp only [fits, if_true]
    apply body_ih heap_typed
    apply (env_typed.grow grown).bindAll
    · rw [values_typed.arity, arity, schemes_arity]
    · intro ⟨part, scheme⟩ mem choice
      obtain ⟨index, here⟩ := mem_iff_getElem?.mp mem
      rw [getElem?_zip_eq_some] at here
      obtain ⟨binder, binder_here⟩ : ∃ binder, binders[index]? = some binder :=
        exists_getElem?_of_length schemes_arity.symm here.2
      rcases uses index binder scheme binder_here here.2 with reused | same
      · have typed := each_typed ⟨binder.name, mem_map_of_mem (mem_of_getElem? binder_here), reused⟩
          (index, choice)
        obtain ⟨_, same_values, parts_typed⟩ := typed.of_tuple
        cases same_values
        exact parts_typed.get here.1 (parts index scheme choice here.2)
      · exact values_typed.get here.1 (same choice)
  | apply _ arity _ callee_ih args_ih =>
    intro _ _ _ heap_typed env_typed
    rw [expr]
    apply Keeps.bind (callee_ih heap_typed env_typed)
    intro _ _ middle grown heap_typed callee_typed
    apply Keeps.bind (keeps_exprs arity args_ih heap_typed (env_typed.grow grown))
    intro _ _ _ grown heap_typed args_typed
    exact calls heap_typed (callee_typed.grow grown) args_typed
  | tuple arity _ elements_ih =>
    intro _ _ _ heap_typed env_typed
    rw [expr]
    apply Keeps.bind (keeps_exprs arity elements_ih heap_typed env_typed)
    intro _ _ _ _ heap_typed elements_typed
    exact .pure heap_typed (.tuple elements_typed.arity elements_typed.each)
  | arrayMake _ _ size_ih element_ih =>
    intro _ _ _ heap_typed env_typed
    rw [expr]
    apply Keeps.bind (size_ih heap_typed env_typed)
    intro _ _ middle grown heap_typed size_typed
    apply Keeps.bind (element_ih heap_typed (env_typed.grow grown))
    intro _ _ middle _ heap_typed element_typed
    obtain ⟨count, rfl⟩ := size_typed.int
    show Keeps _ _ _ ((if 0 ≤ count then allocate _ else halt .trap) middle) _
    split
    · apply keeps_allocate heap_typed
      intro _ mem
      rw [eq_of_mem_replicate mem]
      exact element_typed
    · exact .halt heap_typed nofun
  | @arrayLit scope _ elements type _ elements_ih =>
    intro cells memory env heap_typed env_typed
    rw [expr]
    have alike : elements.length = (replicate elements.length type).length := by simp
    apply Keeps.bind (keeps_exprs alike (fun pair mem => ?_) heap_typed env_typed)
    · intro later values middle grown heap_typed values_typed
      apply keeps_allocate heap_typed
      intro _ mem
      obtain ⟨index, here⟩ := mem_iff_getElem?.mp mem
      have bound := (List.getElem?_eq_some_iff.mp here).1
      rw [values_typed.arity] at bound
      have type_here := getElem?_eq_getElem bound
      rw [getElem_replicate] at type_here
      exact values_typed.get here type_here
    · have inside := of_mem_zip mem
      rw [eq_of_mem_replicate inside.2]
      intro _ _ _
      exact elements_ih pair.1 inside.1
  | arrayLen _ array_ih =>
    intro _ _ _ heap_typed env_typed
    rw [expr]
    apply Keeps.bind (array_ih heap_typed env_typed)
    intro _ _ _ _ heap_typed array_typed
    obtain ⟨base, size, rfl, _⟩ := array_typed.of_array
    exact .pure heap_typed .lit
  | arrayGet _ _ array_ih index_ih =>
    intro _ _ _ heap_typed env_typed
    rw [expr]
    apply Keeps.bind (array_ih heap_typed env_typed)
    intro _ _ middle grown heap_typed array_typed
    apply Keeps.bind (index_ih heap_typed (env_typed.grow grown))
    intro _ _ _ grown heap_typed index_typed
    obtain ⟨base, size, rfl, inside⟩ := (array_typed.grow grown).of_array
    obtain ⟨n, rfl⟩ := index_typed.int
    exact keeps_load heap_typed inside
  | arraySet _ _ _ array_ih index_ih value_ih =>
    intro _ _ _ heap_typed env_typed
    rw [expr]
    apply Keeps.bind (array_ih heap_typed env_typed)
    intro _ _ middle array_grown heap_typed array_typed
    apply Keeps.bind (index_ih heap_typed (env_typed.grow array_grown))
    intro _ _ middle index_grown heap_typed index_typed
    apply Keeps.bind (value_ih heap_typed ((env_typed.grow array_grown).grow index_grown))
    intro _ _ _ value_grown heap_typed value_typed
    obtain ⟨base, size, rfl, inside⟩ := (array_typed.grow (index_grown.trans value_grown)).of_array
    obtain ⟨n, rfl⟩ := index_typed.int
    exact keeps_store heap_typed inside value_typed
  | some _ element_ih =>
    intro _ _ _ heap_typed env_typed
    rw [expr]
    apply Keeps.bind (element_ih heap_typed env_typed)
    intro _ _ _ _ heap_typed element_typed
    exact .pure heap_typed (.some element_typed)
  | none =>
    intro _ _ _ heap_typed _
    rw [expr]
    exact .pure heap_typed .none
  | matchOption _ _ _ target_ih some_ih none_ih =>
    intro _ _ _ heap_typed env_typed
    rw [expr]
    apply Keeps.bind (target_ih heap_typed env_typed)
    intro _ _ _ grown heap_typed target_typed
    rcases target_typed.of_option with rfl | ⟨element, rfl, element_typed⟩
    · exact none_ih heap_typed (env_typed.grow grown)
    · exact some_ih heap_typed ((env_typed.grow grown).bind fun _ => element_typed)
  | typed _ child_ih =>
    intro _ _ _ heap_typed env_typed
    rw [expr]
    exact child_ih heap_typed env_typed

theorem callsSoundly_apply (fuel : Nat) : CallsSoundly provides general (apply world fuel) := by
  induction fuel with
  | zero =>
    intro _ _ _ _ _ _ heap_typed _ _
    exact .halt heap_typed nofun
  | succ _ ih =>
    intro cells _ _ _ types result heap_typed callee_typed args_typed
    generalize same : Ty.function types result = type at callee_typed
    cases callee_typed with
    | closure arity found held body_typed =>
      cases same
      rw [apply, if_pos (args_typed.arity.trans arity)]
      apply evaluates respects ih body_typed heap_typed
      have around : EnvTyped provides general cells _ _ := ⟨found, held⟩
      apply EnvTyped.bind
      · apply around.bindAll
        · rw [args_typed.arity, length_map]
        · intro ⟨value, scheme⟩ mem choice
          obtain ⟨_, here⟩ := mem_iff_getElem?.mp mem
          rw [getElem?_zip_eq_some, getElem?_map] at here
          obtain ⟨type, type_here, rfl⟩ := Option.map_eq_some_iff.mp here.2
          exact args_typed.get here.1 type_here
      · exact fun _ => .closure arity found held body_typed
    | external provided =>
      cases same
      exact keeps_callExternal respects provided heap_typed args_typed
    | lit =>
      rename_i literal
      cases literal <;> cases same
    | _ => cases same

theorem keeps_run {program : Resolved} (typed : HasType provides general [] program.body type)
    (fuel : Nat) : Keeps provides general [] (program.run world fuel) fun later value =>
      ValTyped provides general later value type :=
  evaluates respects (callsSoundly_apply respects fuel) typed .nil .nil

end

end Eval

end MiddleEnd
