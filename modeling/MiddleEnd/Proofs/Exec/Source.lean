import MiddleEnd.Proofs.Exec.Machine

/-! Runs of source programs beside runs of blocks. A block follows a source program where the program is
not stuck and stays within its calls: both end alike and make the same requests. -/

namespace MiddleEnd

open List

variable {α β F α' β' : Type} {related : Lambda → F → Prop} {values : List Val}
  {values' : List (Data F)} {value lhs rhs array : Val} {value' lhs' rhs' array' index' : Data F}
  {run : EvalM α} {run' : RunM F β} {base size : Nat} {index : Int}

theorem EvalM.id_map (run : EvalM α) : id <$> run = run := by
  funext memory
  simp only [Functor.map]
  obtain ⟨outcome, later, effects⟩ := run memory
  cases outcome with
  | error => rfl
  | ok value => exact congrArg (Evaluation.mk (.ok value) later) (append_nil effects)

theorem EvalM.bind_assoc {γ : Type} (run : EvalM α) (next : α → EvalM β) (last : β → EvalM γ) :
    run >>= next >>= last = run >>= fun value => next value >>= last := by
  funext memory
  simp only [bind]
  obtain ⟨outcome, later, _⟩ := run memory
  cases outcome with
  | error => rfl
  | ok value =>
    dsimp only
    obtain ⟨outcome, later, _⟩ := next value later
    cases outcome <;> simp

instance : LawfulMonad EvalM := .mk' EvalM EvalM.id_map (fun _ _ => rfl) EvalM.bind_assoc

structure Lambda where
  name : Symbol
  params : List Symbol
  body : Term
  env : List (Nat × Val)

namespace Val

mutual
def data : Val → Data Lambda
  | .lit value => .lit value
  | .tuple elements => .tuple (dataOf elements)
  | .array base size => .array base size
  | .some element => .some element.data
  | .none => .none
  | .closure name params body env => .function ⟨name, params, body, env⟩
  | .external name => .external name
def dataOf : List Val → List (Data Lambda)
  | [] => []
  | first :: rest => first.data :: dataOf rest
end

theorem dataOf_eq (values : List Val) : dataOf values = values.map data := by
  induction values with
  | nil => rfl
  | cons _ _ ih => rw [dataOf, ih, map_cons]

def seen (value : Val) : Data Unit := value.data.seen

abbrev Rel {F : Type} (related : Lambda → F → Prop) (value : Val) (value' : Data F) : Prop :=
  Data.Rel related value.data value'

theorem seen_eq_of_forall (each : Forall₂ (Rel related) values values') :
    values.map seen = values'.map Data.seen := by
  rw [← Data.seen_eq_of_forall (forall₂_map_left_iff.mpr each), List.map_map]
  rfl

end Val

namespace Data

mutual
def val : Data Lambda → Val
  | .lit value => .lit value
  | .tuple elements => .tuple (valOf elements)
  | .array base size => .array base size
  | .some element => .some element.val
  | .none => .none
  | .external name => .external name
  | .function ⟨name, params, body, env⟩ => .closure name params body env
def valOf : List (Data Lambda) → List Val
  | [] => []
  | first :: rest => first.val :: valOf rest
end

theorem valOf_eq (values : List (Data Lambda)) : valOf values = values.map val := by
  induction values with
  | nil => rfl
  | cons _ _ ih => rw [valOf, ih, map_cons]

theorem data_val (value : Data Lambda) : value.val.data = value := by
  induction value with
  | tuple _ ih =>
    rw [val, Val.data, valOf_eq, Val.dataOf_eq, List.map_map]
    exact congrArg _ ((map_congr_left ih).trans (map_id _))
  | some _ ih => rw [val, Val.data, ih]
  | _ => rfl

end Data

/-- The world that a host is to source programs. -/
def Host.world (host : Host) : World where
  int := host.int
  negate := host.negate
  float := host.float
  floatNegate := host.floatNegate
  compare op heap lhs rhs := host.compare op (heap.map Val.seen) lhs.seen rhs.seen
  value := .external
  call count name args heap :=
    (host.call count name (args.map Val.data) (heap.map Val.data)).map fun answer =>
      (answer.1.val, answer.2.map Data.val)

def Effect.request? : Effect → Option Request
  | .call name args heap => some ⟨name, args.map Val.seen, heap.map Val.seen⟩
  | .bound _ _ => none

def requests (effects : List Effect) : List Request := effects.filterMap Effect.request?

/-- What is seen of a run of a source program. -/
def Evaluation.observe (run : Evaluation Val) : Observation :=
  ⟨run.outcome.map Val.seen, run.memory.heap.map Val.seen, requests run.effects⟩

section

variable (related : Lambda → F → Prop)

structure Memory.Rel (memory : Memory) (machine : Machine F) : Prop where
  heap : List.Forall₂ (Val.Rel related) memory.heap machine.heap
  calls : memory.calls = machine.trace.length

inductive Reaches (post : α → β → Prop) (trace : List Request) :
    Evaluation α → Except Halt β × Machine F → Prop
  | value {value : α} {value' : β} {memory : Memory} {machine : Machine F} {effects : List Effect}
    (holds : post value value') (memories : memory.Rel related machine)
    (made : machine.trace = trace ++ requests effects) :
    Reaches post trace ⟨.ok value, memory, effects⟩ (.ok value', machine)
  | trap {memory : Memory} {machine : Machine F} {effects : List Effect}
    (heaps : List.Forall₂ (Val.Rel related) memory.heap machine.heap)
    (made : machine.trace = trace ++ requests effects) :
    Reaches post trace ⟨.error .trap, memory, effects⟩ (.error .trap, machine)
  | excused {reason : Halt} {memory : Memory} {effects : List Effect}
    {outcome : Except Halt β × Machine F} (other : reason ≠ .trap) :
    Reaches post trace ⟨.error reason, memory, effects⟩ outcome

def Follows (post : α → β → Prop) (run : EvalM α) (run' : RunM F β) : Prop :=
  ∀ memory machine, Memory.Rel related memory machine →
    Reaches related post machine.trace (run memory) (run'.run.run machine)

end

section

variable {post : α → β → Prop} {post' : α' → β' → Prop}

theorem RunM.run_get (machine : Machine F) :
    (get : RunM F (Machine F)).run.run machine = (.ok machine, machine) := rfl

theorem RunM.run_set (later machine : Machine F) :
    (set later : RunM F PUnit).run.run machine = (.ok ⟨⟩, later) := rfl

@[simp] theorem requests_append (effects effects' : List Effect) :
    requests (effects ++ effects') = requests effects ++ requests effects' :=
  filterMap_append

theorem requests_bound (symbols : List Symbol) (cells : Nat) :
    requests (symbols.map (Effect.bound · cells)) = [] := by
  simp [requests, Effect.request?]

namespace Follows

theorem pure {value : α} {value' : β} (holds : post value value') :
    Follows related post (Pure.pure value) (Pure.pure value') :=
  fun _ _ memories => .value holds memories (append_nil _).symm

theorem trap : Follows related post (Eval.halt .trap) (Exec.halt .trap) :=
  fun _ _ memories => .trap memories.heap (append_nil _).symm

theorem excused {reason : Halt} (other : reason ≠ .trap) (run' : RunM F β) :
    Follows related post (Eval.halt reason) run' :=
  fun _ _ _ => .excused other

theorem stuck (run' : RunM F β) : Follows related post (Eval.halt .stuck) run' :=
  excused Halt.noConfusion run'

theorem bind {next : α → EvalM α'} {next' : β → RunM F β'} (first : Follows related post run run')
    (second : ∀ value value', post value value' → Follows related post' (next value) (next' value')) :
    Follows related post' (run >>= next) (run' >>= next') := by
  intro memory machine memories
  have reaches := first memory machine memories
  rw [RunM.run_bind]
  simp only [Bind.bind]
  generalize run memory = evaluation at reaches ⊢
  generalize run'.run.run machine = outcome at reaches ⊢
  cases reaches with
  | @value value value' middle machine' effects holds memories made =>
    have reaches := second _ _ holds _ _ memories
    dsimp only
    generalize next value middle = evaluation at reaches ⊢
    generalize (next' value').run.run machine' = outcome at reaches ⊢
    rw [made] at reaches
    cases reaches with
    | value holds memories made => exact .value holds memories (by rw [made, requests_append, append_assoc])
    | trap heaps made => exact .trap heaps (by rw [made, requests_append, append_assoc])
    | excused other => exact .excused other
  | trap heaps made => exact .trap heaps made
  | excused other => exact .excused other

theorem map_left {give : α → α'} {later : α' → β → Prop} (follows : Follows related post run run')
    (given : ∀ value value', post value value' → later (give value) value') :
    Follows related later (do return give (← run)) run' := by
  rw [← bind_pure run']
  exact .bind follows fun value value' holds => .pure (given value value' holds)

theorem map_right {give : β → β'} {later : α → β' → Prop} (follows : Follows related post run run')
    (given : ∀ value value', post value value' → later value (give value')) :
    Follows related later run (do return give (← run')) := by
  rw [← bind_pure run]
  exact .bind follows fun value value' holds => .pure (given value value' holds)

theorem with_run {always : β → Prop} (follows : Follows related post run run')
    (holds : ∀ machine value' machine', run'.run.run machine = (.ok value', machine') → always value') :
    Follows related (fun value value' => post value value' ∧ always value') run run' := by
  intro memory machine memories
  have reaches := follows memory machine memories
  generalize run memory = evaluation at reaches ⊢
  generalize ended : run'.run.run machine = outcome at reaches ⊢
  cases reaches with
  | value here memories made => exact .value ⟨here, holds _ _ _ ended⟩ memories made
  | trap heaps made => exact .trap heaps made
  | excused other => exact .excused other

theorem ite {condition : Prop} [Decidable condition] {yes no : EvalM α} {yes' no' : RunM F β}
    (on_yes : Follows related post yes yes') (on_no : Follows related post no no') :
    Follows related post (if condition then yes else no) (if condition then yes' else no') := by
  split
  · exact on_yes
  · exact on_no

theorem orTrap {value : Option α} : Follows related Eq (Eval.orTrap value) (Exec.orHalt .trap value) := by
  cases value with
  | some _ => exact .pure rfl
  | none => exact .trap

theorem allocate {cells : List Val} {cells' : List (Data F)}
    (each : Forall₂ (Val.Rel related) cells cells') :
    Follows related (Val.Rel related) (Eval.allocate cells) (Exec.allocate cells') := by
  intro _ _ memories
  refine .value ?_ ⟨rel_append memories.heap each, memories.calls⟩ (append_nil _).symm
  rw [← memories.heap.length_eq, ← each.length_eq]
  exact .array _ _

theorem load : Follows related (Val.Rel related) (Eval.load base size index)
      (Exec.arrayGet (.array base size) (.lit (.int index))) := by
  intro memory machine memories
  rw [Eval.load, Exec.arrayGet]
  split
  · have cells := Exec.rel_getElem? memories.heap (base + index.toNat)
    show Reaches related _ _ _ ((Exec.orHalt .stuck machine.heap[base + index.toNat]?).run.run machine)
    generalize memory.heap[base + index.toNat]? = cell at cells ⊢
    generalize machine.heap[base + index.toNat]? = cell' at cells ⊢
    cases cells with
    | some holds => exact .value holds memories (append_nil _).symm
    | none => exact .excused Halt.noConfusion
  · exact .trap memories.heap (append_nil _).symm

theorem store (stored : Val.Rel related value value') :
    Follows related (Val.Rel related) (Eval.store base size index value)
      (Exec.arraySet (.array base size) (.lit (.int index)) value') := by
  intro _ _ memories
  rw [Eval.store, Exec.arraySet]
  split
  · exact .value (.lit _) ⟨Exec.forall_set memories.heap stored _, memories.calls⟩ (append_nil _).symm
  · exact .trap memories.heap (append_nil _).symm

theorem unary (host : Host) (op : UnaryOp) {operand : Val} {operand' : Data F}
    (operands : Val.Rel related operand operand') :
    Follows related (Val.Rel related) (Eval.unary host.world op operand) (Exec.unary host op operand') := by
  cases operand with
  | lit value =>
    cases operands
    cases op with
    | not =>
      cases value with
      | bool _ => exact .pure (.lit _)
      | _ => exact .stuck _
    | negate =>
      cases value with
      | int _ => exact .pure (.lit _)
      | _ => exact .stuck _
    | floatNegate =>
      cases value with
      | float _ => exact .pure (.lit _)
      | _ => exact .stuck _
  | _ => cases op <;> exact .stuck _

theorem compare (host : Host) (op : BinaryOp) (left : Val.Rel related lhs lhs')
    (right : Val.Rel related rhs rhs') :
    Follows related (Val.Rel related) (Eval.compare host.world op lhs rhs) (Exec.compare host op lhs' rhs') := by
  intro memory machine memories
  have same : host.world.compare op memory.heap lhs rhs =
      host.compare op (machine.heap.map Data.seen) lhs'.seen rhs'.seen := by
    simp only [Host.world, Val.seen_eq_of_forall memories.heap, Val.seen, left.seen_eq, right.seen_eq]
  rw [Eval.compare, same, Exec.compare, RunM.run_bind, RunM.run_get]
  dsimp only
  cases host.compare op (machine.heap.map Data.seen) lhs'.seen rhs'.seen with
  | some value => exact .value (.lit _) memories (append_nil _).symm
  | none => exact .trap memories.heap (append_nil _).symm

theorem binary (host : Host) (op : BinaryOp) (left : Val.Rel related lhs lhs')
    (right : Val.Rel related rhs rhs') :
    Follows related (Val.Rel related) (Eval.binary host.world op lhs rhs) (Exec.binary host op lhs' rhs') := by
  unfold Eval.binary
  split
  · next kind =>
    cases left
    cases right
    simp only [Exec.binary, kind, Exec.arithmetic]
    refine .bind .orTrap fun _ _ same => ?_
    rw [same]
    exact .pure (.lit _)
  · next kind =>
    cases left
    cases right
    simp only [Exec.binary, kind, Exec.arithmetic]
    exact .pure (.lit _)
  · next kind =>
    cases left
    cases right
    simp only [Exec.binary, kind, Exec.arithmetic]
    exact .pure (.lit _)
  · next kind =>
    simp only [Exec.binary, kind]
    exact compare host op left right
  · next kind =>
    simp only [Exec.binary, kind]
    exact compare host op left right
  · exact .stuck _

theorem callExternal (host : Host) (name : String) {args : List Val} {args' : List (Data F)}
    (each : Forall₂ (Val.Rel related) args args') :
    Follows related (Val.Rel related) (Eval.callExternal host.world name args)
      (Exec.callExternal host name args') := by
  intro memory machine memories
  have answers : Option.Rel _
      (host.call machine.trace.length name (args.map Val.data) (memory.heap.map Val.data))
      (host.call machine.trace.length name args' machine.heap) :=
    host.call_rel (forall₂_map_left_iff.mpr each) (forall₂_map_left_iff.mpr memories.heap)
  have request : requests [.call name args memory.heap] =
      [⟨name, args'.map Data.seen, machine.heap.map Data.seen⟩] := by
    simp only [requests, filterMap_cons, Effect.request?, filterMap_nil,
      Val.seen_eq_of_forall each, Val.seen_eq_of_forall memories.heap]
  rw [Eval.callExternal, Exec.callExternal, memories.calls, RunM.run_bind, RunM.run_get]
  simp only [Host.world]
  rw [RunM.run_bind, RunM.run_set]
  dsimp only
  generalize host.call machine.trace.length name (args.map Val.data) (memory.heap.map Val.data) = answer
    at answers ⊢
  generalize host.call machine.trace.length name args' machine.heap = answer' at answers ⊢
  cases answers with
  | @some answer answer' holds =>
    have heaps : Forall₂ (Val.Rel related) (answer.2.map Data.val) answer'.2 := by
      rw [forall₂_map_left_iff]
      exact holds.2.imp fun _ _ _ => by rwa [Val.Rel, Data.data_val]
    refine .value ?_ ⟨heaps, ?_⟩ (by rw [request])
    · rw [Val.Rel, Data.data_val]
      exact holds.1
    · simp
  | none => exact .trap memories.heap (by rw [request])

theorem binding {symbols : List Symbol} {bound : EvalM Val} {post : Val → β → Prop}
    (follows : Follows related post bound run') :
    Follows related post (Eval.binding symbols bound) run' := by
  intro memory machine memories
  have reaches := follows memory machine memories
  unfold Eval.binding
  generalize bound memory = evaluation at reaches ⊢
  generalize run'.run.run machine = outcome at reaches ⊢
  cases reaches with
  | value holds memories made =>
    refine .value holds memories ?_
    rw [made, requests_append, requests_bound, append_nil]
  | trap heaps made => exact .trap heaps made
  | excused other => exact .excused other

theorem observe {run : EvalM Val} {run' : RunM F (Data F)}
    (follows : Follows related (Val.Rel related) run run')
    (not_stuck : (run {}).outcome ≠ .error .stuck) (in_time : (run {}).outcome ≠ .error .timeout) :
    run'.observe = (run {}).observe := by
  have reaches := follows {} {} ⟨.nil, rfl⟩
  unfold RunM.observe Evaluation.observe
  generalize run {} = evaluation at reaches not_stuck in_time ⊢
  generalize run'.run.run {} = outcome at reaches ⊢
  cases reaches with
  | value holds memories made =>
    simp only [Except.map, Val.seen, holds.seen_eq, Val.seen_eq_of_forall memories.heap, made,
      nil_append]
  | trap heaps made =>
    simp only [Except.map, Val.seen_eq_of_forall heaps, made, nil_append]
  | @excused reason _ _ _ other =>
    cases reason with
    | stuck => exact absurd rfl not_stuck
    | trap => exact absurd rfl other
    | timeout => exact absurd rfl in_time

end Follows

end

namespace Eval

def arrayMake (size element : Val) : EvalM Val :=
  match size with
  | .lit (.int size) =>
    if 0 ≤ size then allocate (List.replicate size.toNat element) else halt .trap
  | _ => halt .stuck

def arrayLen : Val → EvalM Val
  | .array _ size => return .int size
  | _ => halt .stuck

def arrayGet : Val → Val → EvalM Val
  | .array base size, .lit (.int index) => load base size index
  | _, _ => halt .stuck

def arraySet (array index value : Val) : EvalM Val :=
  match array, index with
  | .array base size, .lit (.int index) => store base size index value
  | _, _ => halt .stuck

def noOperands (give : EvalM Val) : List Val → EvalM Val
  | [] => give
  | _ => halt .stuck

def oneOperand (give : Val → EvalM Val) : List Val → EvalM Val
  | [first] => give first
  | _ => halt .stuck

def twoOperands (give : Val → Val → EvalM Val) : List Val → EvalM Val
  | [first, second] => give first second
  | _ => halt .stuck

def threeOperands (give : Val → Val → Val → EvalM Val) : List Val → EvalM Val
  | [first, second, third] => give first second third
  | _ => halt .stuck

variable {world : World} {call : Val → List Val → EvalM Val} {env : List (Nat × Val)}

theorem exprs_noOperands (give : EvalM Val) : exprs world call env [] >>= noOperands give = give := by
  simp [exprs, noOperands]

theorem exprs_oneOperand (give : Val → EvalM Val) (first : Term) :
    exprs world call env [first] >>= oneOperand give = expr world call env first >>= give := by
  simp [exprs, oneOperand]

theorem exprs_twoOperands (give : Val → Val → EvalM Val) (first second : Term) :
    exprs world call env [first, second] >>= twoOperands give = (do
      let left ← expr world call env first
      let right ← expr world call env second
      give left right) := by
  simp [exprs, twoOperands]

theorem exprs_threeOperands (give : Val → Val → Val → EvalM Val) (first second third : Term) :
    exprs world call env [first, second, third] >>= threeOperands give = (do
      let left ← expr world call env first
      let right ← expr world call env second
      let last ← expr world call env third
      give left right last) := by
  simp [exprs, threeOperands]

end Eval

namespace Follows

theorem arrayMake {size element : Val} {size' element' : Data F} (sizes : Val.Rel related size size')
    (elements : Val.Rel related element element') :
    Follows related (Val.Rel related) (Eval.arrayMake size element) (Exec.arrayMake size' element') := by
  unfold Eval.arrayMake
  split
  · cases sizes
    exact .ite (.allocate (Exec.forall_replicate elements _)) .trap
  · exact .stuck _

theorem arrayLen (arrays : Val.Rel related array array') :
    Follows related (Val.Rel related) (Eval.arrayLen array) (Exec.arrayLen array') := by
  unfold Eval.arrayLen
  split
  · cases arrays
    exact .pure (.lit _)
  · exact .stuck _

theorem arrayGet {index : Val} (arrays : Val.Rel related array array')
    (indices : Val.Rel related index index') :
    Follows related (Val.Rel related) (Eval.arrayGet array index) (Exec.arrayGet array' index') := by
  unfold Eval.arrayGet
  split
  · cases arrays
    cases indices
    exact .load
  · exact .stuck _

theorem arraySet {index : Val} (arrays : Val.Rel related array array')
    (indices : Val.Rel related index index') (values : Val.Rel related value value') :
    Follows related (Val.Rel related) (Eval.arraySet array index value)
      (Exec.arraySet array' index' value') := by
  unfold Eval.arraySet
  split
  · cases arrays
    cases indices
    exact .store values
  · exact .stuck _

section

variable (each : Forall₂ (Val.Rel related) values values')
include each

theorem noOperands {give : EvalM Val} {give' : RunM F (Data F)}
    (gives : Follows related (Val.Rel related) give give') :
    Follows related (Val.Rel related) (Eval.noOperands give values) (Exec.noOperands give' values') := by
  cases each with
  | nil => exact gives
  | cons => exact .stuck _

theorem oneOperand {give : Val → EvalM Val} {give' : Data F → RunM F (Data F)}
    (gives : ∀ {first first'}, Val.Rel related first first' →
      Follows related (Val.Rel related) (give first) (give' first')) :
    Follows related (Val.Rel related) (Eval.oneOperand give values) (Exec.oneOperand give' values') := by
  rcases each with _ | ⟨first, _ | _⟩
  · exact .stuck _
  · exact gives first
  · exact .stuck _

theorem twoOperands {give : Val → Val → EvalM Val} {give' : Data F → Data F → RunM F (Data F)}
    (gives : ∀ {first first' second second'}, Val.Rel related first first' →
      Val.Rel related second second' →
      Follows related (Val.Rel related) (give first second) (give' first' second')) :
    Follows related (Val.Rel related) (Eval.twoOperands give values) (Exec.twoOperands give' values') := by
  rcases each with _ | ⟨first, _ | ⟨second, _ | _⟩⟩
  · exact .stuck _
  · exact .stuck _
  · exact gives first second
  · exact .stuck _

theorem threeOperands {give : Val → Val → Val → EvalM Val}
    {give' : Data F → Data F → Data F → RunM F (Data F)}
    (gives : ∀ {first first' second second' third third'}, Val.Rel related first first' →
      Val.Rel related second second' → Val.Rel related third third' →
      Follows related (Val.Rel related) (give first second third) (give' first' second' third')) :
    Follows related (Val.Rel related) (Eval.threeOperands give values)
      (Exec.threeOperands give' values') := by
  rcases each with _ | ⟨first, _ | ⟨second, _ | ⟨third, _ | _⟩⟩⟩
  · exact .stuck _
  · exact .stuck _
  · exact .stuck _
  · exact gives first second third
  · exact .stuck _

end

end Follows

end MiddleEnd
