import MiddleEnd.Code.Op
import MiddleEnd.Proofs.Exec.Data
import MiddleEnd.Proofs.Source.Eval

/-! What operations do to the heap and to the world outside, and when two runs over different
representations of functions agree. -/

namespace MiddleEnd

open List

variable {F α β : Type} {value : α} {value' : β} {lhs rhs array index option : Data F}
  {holds : α → β → Prop} {values : List α} {values' : List β}

structure Host where
  int : BinaryOp → Int → Int → Option Int
  negate : Int → Int
  float : BinaryOp → Double → Double → Double
  floatNegate : Double → Double
  compare : BinaryOp → List (Data Unit) → Data Unit → Data Unit → Option Bool
  call {F : Type} : Nat → String → List (Data F) → List (Data F) → Option (Data F × List (Data F))
  call_map {F G : Type} (change : F → G) (count : Nat) (name : String) (args heap : List (Data F)) :
    call count name (args.map (Data.map change)) (heap.map (Data.map change)) =
      (call count name args heap).map fun answer =>
        (answer.1.map change, answer.2.map (Data.map change))

/-- A call of an external as it is seen from outside, with the heap at that time. -/
structure Request where
  name : String
  args : List (Data Unit)
  heap : List (Data Unit)

structure Machine (F : Type) where
  heap : List (Data F) := []
  trace : List Request := []

abbrev RunM (F : Type) := ExceptT Halt (StateM (Machine F))

structure Observation where
  outcome : Except Halt (Data Unit)
  heap : List (Data Unit)
  trace : List Request

section

def RunM.observe (run : RunM F (Data F)) : Observation :=
  let (outcome, machine) := run.run.run {}
  ⟨outcome.map Data.seen, machine.heap.map Data.seen, machine.trace⟩

namespace Exec

def halt {α : Type} (reason : Halt) : RunM F α := throw reason

def orHalt {α : Type} (reason : Halt) : Option α → RunM F α
  | some value => return value
  | none => halt reason

def allocate (cells : List (Data F)) : RunM F (Data F) := do
  let machine ← get
  set { machine with heap := machine.heap ++ cells }
  return .array machine.heap.length cells.length

def unary (host : Host) : UnaryOp → Data F → RunM F (Data F)
  | .not, .lit (.bool value) => return .lit (.bool !value)
  | .negate, .lit (.int value) => return .lit (.int (host.negate value))
  | .floatNegate, .lit (.float value) => return .lit (.float (host.floatNegate value))
  | _, _ => halt .stuck

def compare (host : Host) (op : BinaryOp) (lhs rhs : Data F) : RunM F (Data F) := do
  let machine ← get
  let value ← orHalt .trap (host.compare op (machine.heap.map Data.seen) lhs.seen rhs.seen)
  return .lit (.bool value)

def arithmetic (host : Host) (op : BinaryOp) (lhs rhs : Literal) : RunM F (Data F) :=
  match op.operatorClass, lhs, rhs with
  | .intArithmetic, .int lhs, .int rhs => do
    return .lit (.int (← orHalt .trap (host.int op lhs rhs)))
  | .floatArithmetic, .float lhs, .float rhs => return .lit (.float (host.float op lhs rhs))
  | .logical, .bool lhs, .bool rhs => return .lit (.bool (Eval.logical op lhs rhs))
  | _, _, _ => halt .stuck

def binary (host : Host) (op : BinaryOp) (lhs rhs : Data F) : RunM F (Data F) :=
  match op.operatorClass with
  | .ordering | .equality => compare host op lhs rhs
  | _ =>
    match lhs, rhs with
    | .lit lhs, .lit rhs => arithmetic host op lhs rhs
    | _, _ => halt .stuck

def field (index : Nat) : Data F → RunM F (Data F)
  | .tuple elements => orHalt .stuck elements[index]?
  | _ => halt .stuck

def arrayMake : Data F → Data F → RunM F (Data F)
  | .lit (.int size), element =>
    if 0 ≤ size then allocate (List.replicate size.toNat element) else halt .trap
  | _, _ => halt .stuck

def arrayGet : Data F → Data F → RunM F (Data F)
  | .array base size, .lit (.int index) =>
    if 0 ≤ index ∧ index < size then do
      let machine ← get
      orHalt .stuck machine.heap[base + index.toNat]?
    else halt .trap
  | _, _ => halt .stuck

def arraySet : Data F → Data F → Data F → RunM F (Data F)
  | .array base size, .lit (.int index), value =>
    if 0 ≤ index ∧ index < size then do
      let machine ← get
      set { machine with heap := machine.heap.set (base + index.toNat) value }
      return .lit .unit
    else halt .trap
  | _, _, _ => halt .stuck

def arrayLen : Data F → RunM F (Data F)
  | .array _ size => return .lit (.int size)
  | _ => halt .stuck

def isSome : Data F → RunM F (Data F)
  | .some _ => return .lit (.bool true)
  | .none => return .lit (.bool false)
  | _ => halt .stuck

def unwrap : Data F → RunM F (Data F)
  | .some element => return element
  | _ => halt .stuck

def noOperands (give : RunM F (Data F)) : List (Data F) → RunM F (Data F)
  | [] => give
  | _ => halt .stuck

def oneOperand (give : Data F → RunM F (Data F)) : List (Data F) → RunM F (Data F)
  | [first] => give first
  | _ => halt .stuck

def twoOperands (give : Data F → Data F → RunM F (Data F)) : List (Data F) → RunM F (Data F)
  | [first, second] => give first second
  | _ => halt .stuck

def threeOperands (give : Data F → Data F → Data F → RunM F (Data F)) : List (Data F) → RunM F (Data F)
  | [first, second, third] => give first second third
  | _ => halt .stuck

def compute (host : Host) : Op → List (Data F) → RunM F (Data F)
  | .nop => noOperands (return .lit .unit)
  | .const value => noOperands (return .lit value)
  | .unary op _ => oneOperand (unary host op)
  | .binary op _ _ => twoOperands (binary host op)
  | .ref _ => oneOperand fun value => return value
  | .external name => noOperands (return .external name)
  | .tuple _ => fun elements => return .tuple elements
  | .field _ index => oneOperand (field index)
  | .arrayMake _ _ => twoOperands arrayMake
  | .arrayLit _ => allocate
  | .arrayGet _ _ => twoOperands arrayGet
  | .arraySet _ _ _ => threeOperands arraySet
  | .arrayLen _ => oneOperand arrayLen
  | .some _ => oneOperand fun element => return .some element
  | .none => noOperands (return .none)
  | .isSome _ => oneOperand isSome
  | .unwrap _ => oneOperand unwrap
  | .call _ _ _ | .closure _ _ => fun _ => halt .stuck

theorem compute_mapOperands (host : Host) (change : String → String) (op : Op) :
    (compute host (op.mapOperands change) : List (Data F) → RunM F (Data F)) = compute host op := by
  cases op <;> rfl

def callExternal (host : Host) (name : String) (args : List (Data F)) : RunM F (Data F) := do
  let machine ← get
  let request := Request.mk name (args.map Data.seen) (machine.heap.map Data.seen)
  set { machine with trace := machine.trace ++ [request] }
  let (value, heap) ← orHalt .trap (host.call machine.trace.length name args machine.heap)
  modify fun machine => { machine with heap }
  return value

end Exec

end

structure Machine.Rel {F G : Type} (related : F → G → Prop) (machine : Machine F)
    (machine' : Machine G) : Prop where
  heap : List.Forall₂ (Data.Rel related) machine.heap machine'.heap
  trace : machine.trace = machine'.trace

theorem RunM.run_bind (run : RunM F α) (next : α → RunM F β) (machine : Machine F) :
    (run >>= next).run.run machine =
      match run.run.run machine with
      | (.ok value, later) => (next value).run.run later
      | (.error reason, later) => (.error reason, later) := by
  simp only [ExceptT.run_bind, StateT.run_bind]
  generalize run.run.run machine = outcome
  obtain ⟨outcome, later⟩ := outcome
  cases outcome <;> rfl

section

variable {G α' β' : Type} {related : F → G → Prop}

theorem Host.call_rel (host : Host) {count : Nat} {name : String} {args heap : List (Data F)}
    {args' heap' : List (Data G)} (values : Forall₂ (Data.Rel related) args args')
    (cells : Forall₂ (Data.Rel related) heap heap') :
    Option.Rel (fun answer answer' => Data.Rel related answer.1 answer'.1 ∧
      Forall₂ (Data.Rel related) answer.2 answer'.2)
      (host.call count name args heap) (host.call count name args' heap') := by
  obtain ⟨both, rfl, rfl⟩ := Data.exists_views values
  obtain ⟨shared, rfl, rfl⟩ := Data.exists_views cells
  rw [host.call_map, host.call_map]
  cases host.call count name both shared with
  | none => exact .none
  | some answer => exact .some ⟨Data.rel_views answer.1, Data.forall_views answer.2⟩

/-- Two runs end alike: with values that satisfy `post`, or halted for the same reason. -/
inductive Ends (related : F → G → Prop) (post : α → β → Prop) :
    Except Halt α × Machine F → Except Halt β × Machine G → Prop
  | value {value : α} {value' : β} {machine : Machine F} {machine' : Machine G}
    (holds : post value value') (machines : machine.Rel related machine') :
    Ends related post (.ok value, machine) (.ok value', machine')
  | halt {reason : Halt} {machine : Machine F} {machine' : Machine G}
    (machines : machine.Rel related machine') :
    Ends related post (.error reason, machine) (.error reason, machine')

/-- Two computations that end alike from any two machines that look the same. -/
def Agree (related : F → G → Prop) (post : α → β → Prop) (run : RunM F α) (run' : RunM G β) : Prop :=
  ∀ machine machine', machine.Rel related machine' →
    Ends related post (run.run.run machine) (run'.run.run machine')

namespace Agree

variable {post : α → β → Prop} {post' : α' → β' → Prop}

theorem pure (holds : post value value') : Agree related post (Pure.pure value) (Pure.pure value') :=
  fun _ _ machines => .value holds machines

theorem halt (reason : Halt) : Agree related post (Exec.halt reason) (Exec.halt reason) :=
  fun _ _ machines => .halt machines

theorem bind {run : RunM F α} {run' : RunM G β} {next : α → RunM F α'} {next' : β → RunM G β'}
    (first : Agree related post run run')
    (second : ∀ value value', post value value' → Agree related post' (next value) (next' value')) :
    Agree related post' (run >>= next) (run' >>= next') := by
  intro machine machine' machines
  have ends := first machine machine' machines
  rw [RunM.run_bind, RunM.run_bind]
  generalize run.run.run machine = outcome at ends ⊢
  generalize run'.run.run machine' = outcome' at ends ⊢
  cases ends with
  | value holds machines => exact second _ _ holds _ _ machines
  | halt machines => exact .halt machines

theorem get : Agree related (Machine.Rel related) (MonadState.get : RunM F (Machine F))
    (MonadState.get : RunM G (Machine G)) :=
  fun _ _ machines => .value machines machines

theorem set {machine : Machine F} {machine' : Machine G} (machines : machine.Rel related machine') :
    Agree related (fun _ _ => True) (MonadStateOf.set machine : RunM F PUnit)
      (MonadStateOf.set machine' : RunM G PUnit) :=
  fun _ _ _ => .value trivial machines

theorem update {change : Machine F → Machine F} {change' : Machine G → Machine G}
    (keeps : ∀ machine machine', machine.Rel related machine' →
      (change machine).Rel related (change' machine')) :
    Agree related (fun _ _ => True) (modify change : RunM F PUnit) (modify change' : RunM G PUnit) :=
  fun _ _ machines => .value trivial (keeps _ _ machines)

theorem ite {condition : Prop} [Decidable condition] {yes no : RunM F α} {yes' no' : RunM G β}
    (on_yes : Agree related post yes yes') (on_no : Agree related post no no') :
    Agree related post (if condition then yes else no) (if condition then yes' else no') := by
  split
  · exact on_yes
  · exact on_no

theorem orHalt {reason : Halt} {value : Option α} {value' : Option β} (options : Option.Rel post value value') :
    Agree related post (Exec.orHalt reason value) (Exec.orHalt reason value') := by
  cases options with
  | some holds => exact .pure holds
  | none => exact .halt reason

theorem orHalt_same (reason : Halt) (value : Option α) :
    Agree related Eq (Exec.orHalt reason value) (Exec.orHalt reason value) := by
  cases value with
  | some _ => exact .pure rfl
  | none => exact .halt reason

theorem observe {run : RunM F (Data F)} {run' : RunM G (Data G)}
    (agree : Agree related (Data.Rel related) run run') : run.observe = run'.observe := by
  have ends := agree {} {} ⟨.nil, rfl⟩
  unfold RunM.observe
  generalize run.run.run {} = outcome at ends ⊢
  generalize run'.run.run {} = outcome' at ends ⊢
  cases ends with
  | value holds machines =>
    simp only [Except.map, holds.seen_eq, Data.seen_eq_of_forall machines.heap, machines.trace]
  | halt machines => simp only [Except.map, Data.seen_eq_of_forall machines.heap, machines.trace]

end Agree

namespace Exec

variable (host : Host)

theorem agree_allocate {cells : List (Data F)} {cells' : List (Data G)}
    (each : Forall₂ (Data.Rel related) cells cells') :
    Agree related (Data.Rel related) (allocate cells) (allocate cells') := by
  refine .bind .get fun _ _ machines => ?_
  refine .bind (.set ⟨rel_append machines.heap each, machines.trace⟩) fun _ _ _ => .pure ?_
  rw [machines.heap.length_eq, each.length_eq]
  exact .array _ _

theorem agree_unary (op : UnaryOp) {operand : Data F} {operand' : Data G}
    (operands : Data.Rel related operand operand') :
    Agree related (Data.Rel related) (unary host op operand) (unary host op operand') := by
  cases operands with
  | lit value =>
    cases op with
    | not =>
      cases value with
      | bool _ => exact .pure (.lit _)
      | _ => exact .halt .stuck
    | negate =>
      cases value with
      | int _ => exact .pure (.lit _)
      | _ => exact .halt .stuck
    | floatNegate =>
      cases value with
      | float _ => exact .pure (.lit _)
      | _ => exact .halt .stuck
  | _ => cases op <;> exact .halt .stuck

theorem agree_compare (op : BinaryOp) {lhs' rhs' : Data G} (left : Data.Rel related lhs lhs')
    (right : Data.Rel related rhs rhs') :
    Agree related (Data.Rel related) (compare host op lhs rhs) (compare host op lhs' rhs') := by
  refine .bind .get fun _ _ machines => ?_
  rw [Data.seen_eq_of_forall machines.heap, left.seen_eq, right.seen_eq]
  refine .bind (.orHalt_same _ _) fun _ _ same => ?_
  rw [same]
  exact .pure (.lit _)

theorem agree_arithmetic (op : BinaryOp) (lhs rhs : Literal) :
    Agree related (Data.Rel related) (arithmetic host op lhs rhs) (arithmetic host op lhs rhs) := by
  unfold arithmetic
  split
  · refine .bind (.orHalt_same _ _) fun _ _ same => ?_
    rw [same]
    exact .pure (.lit _)
  · exact .pure (.lit _)
  · exact .pure (.lit _)
  · exact .halt .stuck

theorem agree_binary (op : BinaryOp) {lhs' rhs' : Data G} (left : Data.Rel related lhs lhs')
    (right : Data.Rel related rhs rhs') :
    Agree related (Data.Rel related) (binary host op lhs rhs) (binary host op lhs' rhs') := by
  unfold binary
  split
  · exact agree_compare host op left right
  · exact agree_compare host op left right
  · cases left with
    | lit =>
      cases right with
      | lit => exact agree_arithmetic host op _ _
      | _ => exact .halt .stuck
    | _ => exact .halt .stuck

theorem rel_getElem? (each : Forall₂ holds values values') (index : Nat) :
    Option.Rel holds values[index]? values'[index]? := by
  induction each generalizing index with
  | nil => exact .none
  | cons first _ ih =>
    cases index with
    | zero => exact .some first
    | succ index => exact ih index

theorem agree_field (index : Nat) {source : Data F} {source' : Data G}
    (sources : Data.Rel related source source') :
    Agree related (Data.Rel related) (field index source) (field index source') := by
  cases sources with
  | tuple each => exact .orHalt (rel_getElem? each index)
  | _ => exact .halt .stuck

theorem forall_replicate {element : α} {element' : β} (elements : holds element element') (count : Nat) :
    Forall₂ holds (replicate count element) (replicate count element') := by
  induction count with
  | zero => exact .nil
  | succ _ ih => exact .cons elements ih

theorem forall_set (each : Forall₂ holds values values') (stored : holds value value') (index : Nat) :
    Forall₂ holds (values.set index value) (values'.set index value') := by
  induction each generalizing index with
  | nil => exact .nil
  | cons first rest ih =>
    cases index with
    | zero => exact .cons stored rest
    | succ index => exact .cons first (ih index)

theorem agree_arrayMake {size element : Data F} {size' element' : Data G}
    (sizes : Data.Rel related size size') (elements : Data.Rel related element element') :
    Agree related (Data.Rel related) (arrayMake size element) (arrayMake size' element') := by
  cases sizes with
  | lit value =>
    cases value with
    | int _ => exact .ite (agree_allocate (forall_replicate elements _)) (.halt .trap)
    | _ => exact .halt .stuck
  | _ => exact .halt .stuck

theorem agree_arrayGet {array' index' : Data G} (arrays : Data.Rel related array array')
    (indices : Data.Rel related index index') :
    Agree related (Data.Rel related) (arrayGet array index) (arrayGet array' index') := by
  cases arrays with
  | array _ _ =>
    cases indices with
    | lit value =>
      cases value with
      | int _ =>
        refine .ite (.bind .get fun _ _ machines => ?_) (.halt .trap)
        exact .orHalt (rel_getElem? machines.heap _)
      | _ => exact .halt .stuck
    | _ => exact .halt .stuck
  | _ => exact .halt .stuck

theorem agree_arraySet {value : Data F} {array' index' value' : Data G}
    (arrays : Data.Rel related array array') (indices : Data.Rel related index index')
    (values : Data.Rel related value value') :
    Agree related (Data.Rel related) (arraySet array index value) (arraySet array' index' value') := by
  cases arrays with
  | array _ _ =>
    cases indices with
    | lit place =>
      cases place with
      | int _ =>
        refine .ite (.bind .get fun _ _ machines => ?_) (.halt .trap)
        refine .bind (.set ⟨?_, machines.trace⟩) fun _ _ _ => .pure (.lit _)
        exact forall_set machines.heap values _
      | _ => exact .halt .stuck
    | _ => exact .halt .stuck
  | _ => exact .halt .stuck

theorem agree_arrayLen {array' : Data G} (arrays : Data.Rel related array array') :
    Agree related (Data.Rel related) (arrayLen array) (arrayLen array') := by
  cases arrays with
  | array => exact .pure (.lit _)
  | _ => exact .halt .stuck

theorem agree_isSome {option' : Data G} (options : Data.Rel related option option') :
    Agree related (Data.Rel related) (isSome option) (isSome option') := by
  cases options with
  | some => exact .pure (.lit _)
  | none => exact .pure (.lit _)
  | _ => exact .halt .stuck

theorem agree_unwrap {option' : Data G} (options : Data.Rel related option option') :
    Agree related (Data.Rel related) (unwrap option) (unwrap option') := by
  cases options with
  | some inner => exact .pure inner
  | _ => exact .halt .stuck

section

variable {values : List (Data F)} {values' : List (Data G)}

section

variable (each : Forall₂ (Data.Rel related) values values')
include each

theorem agree_noOperands {give : RunM F (Data F)} {give' : RunM G (Data G)}
    (gives : Agree related (Data.Rel related) give give') :
    Agree related (Data.Rel related) (noOperands give values) (noOperands give' values') := by
  cases each with
  | nil => exact gives
  | cons => exact .halt .stuck

theorem agree_oneOperand {give : Data F → RunM F (Data F)} {give' : Data G → RunM G (Data G)}
    (gives : ∀ {first first'}, Data.Rel related first first' →
      Agree related (Data.Rel related) (give first) (give' first')) :
    Agree related (Data.Rel related) (oneOperand give values) (oneOperand give' values') := by
  rcases each with _ | ⟨first, _ | _⟩
  · exact .halt .stuck
  · exact gives first
  · exact .halt .stuck

theorem agree_twoOperands {give : Data F → Data F → RunM F (Data F)}
    {give' : Data G → Data G → RunM G (Data G)}
    (gives : ∀ {first first' second second'}, Data.Rel related first first' →
      Data.Rel related second second' →
      Agree related (Data.Rel related) (give first second) (give' first' second')) :
    Agree related (Data.Rel related) (twoOperands give values) (twoOperands give' values') := by
  rcases each with _ | ⟨first, _ | ⟨second, _ | _⟩⟩
  · exact .halt .stuck
  · exact .halt .stuck
  · exact gives first second
  · exact .halt .stuck

theorem agree_threeOperands {give : Data F → Data F → Data F → RunM F (Data F)}
    {give' : Data G → Data G → Data G → RunM G (Data G)}
    (gives : ∀ {first first' second second' third third'}, Data.Rel related first first' →
      Data.Rel related second second' → Data.Rel related third third' →
      Agree related (Data.Rel related) (give first second third) (give' first' second' third')) :
    Agree related (Data.Rel related) (threeOperands give values) (threeOperands give' values') := by
  rcases each with _ | ⟨first, _ | ⟨second, _ | ⟨third, _ | _⟩⟩⟩
  · exact .halt .stuck
  · exact .halt .stuck
  · exact .halt .stuck
  · exact gives first second third
  · exact .halt .stuck

end

theorem agree_compute (op : Op) (each : Forall₂ (Data.Rel related) values values') :
    Agree related (Data.Rel related) (compute host op values) (compute host op values') := by
  cases op with
  | nop => exact agree_noOperands each (.pure (.lit _))
  | const _ => exact agree_noOperands each (.pure (.lit _))
  | unary op => exact agree_oneOperand each (agree_unary host op)
  | binary op => exact agree_twoOperands each (agree_binary host op)
  | ref => exact agree_oneOperand each .pure
  | external name => exact agree_noOperands each (.pure (.external name))
  | tuple => exact .pure (.tuple each)
  | field _ index => exact agree_oneOperand each (agree_field index)
  | arrayMake => exact agree_twoOperands each agree_arrayMake
  | arrayLit => exact agree_allocate each
  | arrayGet => exact agree_twoOperands each agree_arrayGet
  | arraySet => exact agree_threeOperands each agree_arraySet
  | arrayLen => exact agree_oneOperand each agree_arrayLen
  | some => exact agree_oneOperand each fun inner => .pure (.some inner)
  | none => exact agree_noOperands each (.pure .none)
  | isSome => exact agree_oneOperand each agree_isSome
  | unwrap => exact agree_oneOperand each agree_unwrap
  | call => exact .halt .stuck
  | closure => exact .halt .stuck

theorem agree_callExternal (name : String) (each : Forall₂ (Data.Rel related) values values') :
    Agree related (Data.Rel related) (callExternal host name values) (callExternal host name values') := by
  refine .bind .get fun machine machine' machines => ?_
  obtain ⟨heap, trace⟩ := machine
  obtain ⟨heap', _⟩ := machine'
  obtain ⟨heaps, traces⟩ := machines
  dsimp only at heaps traces ⊢
  subst traces
  rw [Data.seen_eq_of_forall each, Data.seen_eq_of_forall heaps]
  refine .bind (.set ⟨heaps, rfl⟩) fun _ _ _ => ?_
  refine .bind (.orHalt (host.call_rel each heaps)) ?_
  rintro ⟨_, heap⟩ ⟨_, heap'⟩ ⟨values, heaps⟩
  exact .bind (.update fun _ _ machines => ⟨heaps, machines.trace⟩) fun _ _ _ => .pure values

end

end Exec

end

end MiddleEnd
