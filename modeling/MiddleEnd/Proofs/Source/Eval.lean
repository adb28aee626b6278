import MiddleEnd.Proofs.Scope.Scoped

/-! What programs do: strict evaluation from left to right, with arrays as shared cells of a heap. -/

namespace MiddleEnd

inductive Val where
  | lit (value : Literal)
  | tuple (elements : List Val)
  | array (base size : Nat)
  | some (element : Val)
  | none
  | closure (name : Symbol) (params : List Symbol) (body : Term) (env : List (Nat × Val))
  | external (name : String)

namespace Val

def unit : Val := .lit .unit
def bool (value : Bool) : Val := .lit (.bool value)
def int (value : Int) : Val := .lit (.int value)
def float (value : Double) : Val := .lit (.float value)

end Val

inductive Halt where
  | stuck
  | trap
  | timeout
  deriving DecidableEq

inductive Effect where
  | call (name : String) (args heap : List Val)
  | bound (symbol : Symbol) (cells : Nat)

/-- What programs run on: arithmetic, comparisons, and the functions from outside. An external may
change the heap, and may answer differently each time it is called. -/
structure World where
  int : BinaryOp → Int → Int → Option Int
  negate : Int → Int
  float : BinaryOp → Double → Double → Double
  floatNegate : Double → Double
  compare : BinaryOp → List Val → Val → Val → Option Bool
  value : String → Val
  call : Nat → String → List Val → List Val → Option (Val × List Val)

structure Memory where
  heap : List Val := []
  calls : Nat := 0

structure Evaluation (α : Type) where
  outcome : Except Halt α
  memory : Memory
  effects : List Effect

def EvalM (α : Type) : Type := Memory → Evaluation α

instance : Monad EvalM where
  pure value memory := ⟨.ok value, memory, []⟩
  bind first next memory :=
    match first memory with
    | ⟨.ok value, middle, effects⟩ =>
      let run := next value middle
      { run with effects := effects ++ run.effects }
    | ⟨.error halt, later, effects⟩ => ⟨.error halt, later, effects⟩

namespace Eval

def halt {α : Type} (halt : Halt) : EvalM α := fun memory => ⟨.error halt, memory, []⟩

def orTrap {α : Type} : Option α → EvalM α
  | some value => pure value
  | none => halt .trap

def allocate (cells : List Val) : EvalM Val := fun memory =>
  ⟨.ok (.array memory.heap.length cells.length), { memory with heap := memory.heap ++ cells }, []⟩

def load (base size : Nat) (index : Int) : EvalM Val := fun memory =>
  if 0 ≤ index ∧ index < size then
    match memory.heap[base + index.toNat]? with
    | some value => ⟨.ok value, memory, []⟩
    | none => ⟨.error .stuck, memory, []⟩
  else ⟨.error .trap, memory, []⟩

def store (base size : Nat) (index : Int) (value : Val) : EvalM Val := fun memory =>
  if 0 ≤ index ∧ index < size then
    ⟨.ok .unit, { memory with heap := memory.heap.set (base + index.toNat) value }, []⟩
  else ⟨.error .trap, memory, []⟩

def unary (world : World) : UnaryOp → Val → EvalM Val
  | .not, .lit (.bool value) => return .bool !value
  | .negate, .lit (.int value) => return .int (world.negate value)
  | .floatNegate, .lit (.float value) => return .float (world.floatNegate value)
  | _, _ => halt .stuck

def compare (world : World) (op : BinaryOp) (lhs rhs : Val) : EvalM Val := fun memory =>
  match world.compare op memory.heap lhs rhs with
  | some value => ⟨.ok (.bool value), memory, []⟩
  | none => ⟨.error .trap, memory, []⟩

def logical (op : BinaryOp) (lhs rhs : Bool) : Bool :=
  if op = .and then lhs && rhs else lhs || rhs

def binary (world : World) (op : BinaryOp) (lhs rhs : Val) : EvalM Val :=
  match op.operatorClass, lhs, rhs with
  | .intArithmetic, .lit (.int lhs), .lit (.int rhs) => do
    return .int (← orTrap (world.int op lhs rhs))
  | .floatArithmetic, .lit (.float lhs), .lit (.float rhs) => return .float (world.float op lhs rhs)
  | .logical, .lit (.bool lhs), .lit (.bool rhs) => return .bool (logical op lhs rhs)
  | .ordering, lhs, rhs | .equality, lhs, rhs => compare world op lhs rhs
  | _, _, _ => halt .stuck

def callExternal (world : World) (name : String) (args : List Val) : EvalM Val := fun memory =>
  match world.call memory.calls name args memory.heap with
  | some (value, heap) => ⟨.ok value, ⟨heap, memory.calls + 1⟩, [.call name args memory.heap]⟩
  | none => ⟨.error .trap, memory, [.call name args memory.heap]⟩

def binding (symbols : List Symbol) (bound : EvalM Val) : EvalM Val := fun memory =>
  match bound memory with
  | ⟨.ok value, later, effects⟩ =>
    let cells := later.heap.length - memory.heap.length
    ⟨.ok value, later, effects ++ symbols.map (Effect.bound · cells)⟩
  | run => run

def bindAll (env : List (Nat × Val)) (symbols : List Symbol) (values : List Val) :
    List (Nat × Val) :=
  (symbols.zip values).foldl (fun env (symbol, value) => (symbol.number, value) :: env) env

mutual
def expr (world : World) (call : Val → List Val → EvalM Val) (env : List (Nat × Val)) :
    Term → EvalM Val
  | .lit _ value => return .lit value
  | .var _ ref =>
    match ref.target with
    | .external name => return world.value name
    | .bound symbol =>
      match env.lookup symbol.number with
      | some value => return value
      | none => halt .stuck
  | .unary _ op operand => do
    let operand ← expr world call env operand
    unary world op operand
  | .binary _ op lhs rhs => do
    let lhs ← expr world call env lhs
    let rhs ← expr world call env rhs
    binary world op lhs rhs
  | .cond _ test yes no => do
    let test ← expr world call env test
    match test with
    | .lit (.bool true) => expr world call env yes
    | .lit (.bool false) => expr world call env no
    | _ => halt .stuck
  | .letIn _ binder bound body => do
    let value ← binding [binder.name] (expr world call env bound)
    expr world call ((binder.name.number, value) :: env) body
  | .letRec _ name params _ body rest =>
    let function := Val.closure name (params.map Binder.name) body env
    expr world call ((name.number, function) :: env) rest
  | .letTuple _ binders bound body => do
    let symbols := binders.map Binder.name
    let value ← binding symbols (expr world call env bound)
    match value with
    | .tuple elements =>
      if elements.length = symbols.length then expr world call (bindAll env symbols elements) body
      else halt .stuck
    | _ => halt .stuck
  | .apply _ callee args => do
    let callee ← expr world call env callee
    let args ← exprs world call env args
    call callee args
  | .tuple _ elements => do
    let elements ← exprs world call env elements
    return .tuple elements
  | .arrayMake _ size element => do
    let size ← expr world call env size
    let element ← expr world call env element
    match size with
    | .lit (.int size) =>
      if 0 ≤ size then allocate (List.replicate size.toNat element) else halt .trap
    | _ => halt .stuck
  | .arrayLit _ elements => do
    let elements ← exprs world call env elements
    allocate elements
  | .arrayLen _ array => do
    let array ← expr world call env array
    match array with
    | .array _ size => return .int size
    | _ => halt .stuck
  | .arrayGet _ array index => do
    let array ← expr world call env array
    let index ← expr world call env index
    match array, index with
    | .array base size, .lit (.int index) => load base size index
    | _, _ => halt .stuck
  | .arraySet _ array index value => do
    let array ← expr world call env array
    let index ← expr world call env index
    let value ← expr world call env value
    match array, index with
    | .array base size, .lit (.int index) => store base size index value
    | _, _ => halt .stuck
  | .some _ element => do
    let element ← expr world call env element
    return .some element
  | .none _ => return .none
  | .matchOption _ target binder someArm noneArm => do
    let target ← expr world call env target
    match target with
    | .some element => expr world call ((binder.name.number, element) :: env) someArm
    | .none => expr world call env noneArm
    | _ => halt .stuck
  | .typed _ child _ => expr world call env child
def exprs (world : World) (call : Val → List Val → EvalM Val) (env : List (Nat × Val)) :
    List Term → EvalM (List Val)
  | [] => return []
  | first :: rest => do
    let first ← expr world call env first
    let rest ← exprs world call env rest
    return first :: rest
end

def apply (world : World) : Nat → Val → List Val → EvalM Val
  | 0, _, _ => halt .timeout
  | fuel + 1, .closure name params body env, args =>
    if args.length = params.length then
      let around := bindAll env params args
      expr world (apply world fuel) ((name.number, .closure name params body env) :: around) body
    else halt .stuck
  | _ + 1, .external name, args => callExternal world name args
  | _ + 1, _, _ => halt .stuck

end Eval

/-- Runs a program with calls at most `fuel` deep. -/
def Resolved.run (program : Resolved) (world : World) (fuel : Nat) : Evaluation Val :=
  Eval.expr world (Eval.apply world fuel) [] program.body {}

end MiddleEnd
