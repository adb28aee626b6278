import MiddleEnd.Code.Lower
import MiddleEnd.Code.Program
import MiddleEnd.Proofs.Exec.Machine

/-! What blocks do. The instructions of a block are run in order, and its value is that of its last
instruction. One evaluator serves modules and converted programs: they differ in how functions are
made and called. -/

namespace MiddleEnd

open List

variable {F α β : Type} {params : List String} {args : List (Data F)} {name : String}

abbrev Env (F : Type) := List (String × Data F)

structure Convention (F : Type) where
  /-- What a function is where it is defined. -/
  define : Env F → String → List String → Block → RunM F (Data F)
  /-- A closure with the values that it holds. -/
  close : String → Env F → RunM F (Data F)
  /-- The call of a function value. -/
  enter : F → List (Data F) → RunM F (Data F)
  /-- The call of a function by its label. -/
  direct : Env F → String → List (Data F) → RunM F (Data F)

def Op.Basic : Op → Prop
  | .call .. | .closure .. => False
  | _ => True

theorem Op.Basic.mapOperands {op : Op} (basic : op.Basic) (rename : String → String) :
    (op.mapOperands rename).Basic := by
  cases op with
  | call | closure => cases basic
  | _ => trivial

namespace Exec

section

def read (env : Env F) (name : String) : RunM F (Data F) := orHalt .stuck (env.lookup name)

def readAll (env : Env F) : List String → RunM F (List (Data F))
  | [] => return []
  | name :: names => do
    let value ← read env name
    let values ← readAll env names
    return value :: values

def callValue (host : Host) (enter : F → List (Data F) → RunM F (Data F)) :
    Data F → List (Data F) → RunM F (Data F)
  | .external name, args => callExternal host name args
  | .function code, args => enter code args
  | _, _ => halt .stuck

def op (host : Host) (convention : Convention F) (env : Env F) : Op → RunM F (Data F)
  | .call .external name args => do
    let args ← readAll env args
    callExternal host name args
  | .call .direct callee args => do
    let args ← readAll env args
    convention.direct env callee args
  | .call .closure callee args => do
    let args ← readAll env args
    let function ← read env callee
    callValue host convention.enter function args
  | .closure captures function => do
    let values ← readAll env captures
    convention.close function (captures.zip values)
  | op => do
    let operands ← readAll env op.operands
    compute host op operands

def choose {α : Type} (test : Data F) (yes no : RunM F α) : RunM F α :=
  match test with
  | .lit (.bool true) => yes
  | .lit (.bool false) => no
  | _ => halt .stuck

mutual
def block (host : Host) (convention : Convention F) (env : Env F) : Block → RunM F (Data F)
  | .mk _ body => do
    let env ← code host convention env body
    match body.getLast? with
    | some last => read env last.name
    | none => halt .stuck
def code (host : Host) (convention : Convention F) (env : Env F) :
    List (Instr Block) → RunM F (Env F)
  | [] => return env
  | ⟨_, name, _, .op op⟩ :: rest => do
    let value ← Exec.op host convention env op
    code host convention ((name, value) :: env) rest
  | ⟨_, name, _, .branch test yes no⟩ :: rest => do
    let test ← read env test
    let value ← choose test (block host convention env yes) (block host convention env no)
    code host convention ((name, value) :: env) rest
  | ⟨_, name, _, .function params body _⟩ :: rest => do
    let value ← convention.define env name params body
    code host convention ((name, value) :: env) rest
end

end

end Exec

inductive Closure where
  | mk (name : String) (params : List String) (body : Block) (env : List (String × Data Closure))

namespace Closure

def convention (host : Host) (enter : Closure → List (Data Closure) → RunM Closure (Data Closure)) :
    Convention Closure where
  define env name params body := return .function (.mk name params body env)
  close _ _ := Exec.halt .stuck
  enter := enter
  direct env callee args := do
    let function ← Exec.read env callee
    Exec.callValue host enter function args

def enter (host : Host) : Nat → Closure → List (Data Closure) → RunM Closure (Data Closure)
  | 0, _, _ => Exec.halt .timeout
  | fuel + 1, .mk name params body env, args =>
    if args.length = params.length then
      let around := (name, .function (.mk name params body env)) :: env
      Exec.block host (convention host (enter host fuel)) (params.zip args ++ around) body
    else Exec.halt .stuck

end Closure

/-- Runs the entry block of a module with calls at most `fuel` deep. -/
def Module.run (module : Module) (host : Host) (fuel : Nat) : Observation :=
  (Exec.block host (Closure.convention host (Closure.enter host fuel)) [] module.entry).observe

inductive Made where
  | mk (function : String) (held : List (String × Data Made))

namespace Converted

def convention (enter : String → Env Made → List (Data Made) → RunM Made (Data Made)) :
    Convention Made where
  define _ _ _ _ := Exec.halt .stuck
  close function held := return .function (.mk function held)
  enter := fun (.mk function held) args =>
    enter function ((function, .function (.mk function held)) :: held) args
  direct _ function args := enter function [] args

def enter (program : Converted) (host : Host) :
    Nat → String → Env Made → List (Data Made) → RunM Made (Data Made)
  | 0, _, _, _ => Exec.halt .timeout
  | fuel + 1, function, scope, args =>
    match program.toplevel.find? function with
    | none => Exec.halt .stuck
    | some entry =>
      if args.length = entry.params.length then
        Exec.block host (convention (enter program host fuel)) (entry.params.zip args ++ scope)
          entry.body
      else Exec.halt .stuck

/-- Runs the entry block of a converted program with calls at most `fuel` deep. -/
def run (program : Converted) (host : Host) (fuel : Nat) : Observation :=
  (Exec.block host (convention (enter program host fuel)) [] program.entry).observe

end Converted

section

variable {G : Type} {related : F → G → Prop} {env : Env F} {env' : Env G}

theorem exists_of_rel_some {holds : α → β → Prop} {value : α} {option : Option β}
    (rel : Option.Rel holds (some value) option) :
    ∃ value', option = some value' ∧ holds value value' := by
  cases rel with
  | some here => exact ⟨_, rfl, here⟩

theorem Env.lookup_cons (env : Env F) (name other : String) (value : Data F) :
    List.lookup other ((name, value) :: env) = if other = name then some value else env.lookup other := by
  rw [List.lookup_cons]
  by_cases same : other = name
  · simp [same]
  · have differs : (other == name) = false := by simpa using same
    rw [differs, if_neg same]

theorem Env.lookup_zip_of_not_mem (other : name ∉ params) :
    (params.zip args ++ env).lookup name = env.lookup name := by
  induction params generalizing args with
  | nil => rfl
  | cons _ _ ih =>
    cases args with
    | nil => rfl
    | cons _ _ =>
      rw [mem_cons, not_or] at other
      rw [zip_cons_cons, cons_append, lookup_cons, if_neg other.1, ih other.2]

theorem Env.lookup_zip_ne_none (same_length : args.length = params.length) (mem : name ∈ params) :
    (params.zip args ++ env).lookup name ≠ none := by
  induction params generalizing args with
  | nil => cases mem
  | cons _ _ ih =>
    cases args with
    | nil => cases same_length
    | cons _ _ =>
      rw [zip_cons_cons, cons_append, lookup_cons]
      split
      · exact nofun
      · next other =>
        exact ih (Nat.succ.inj same_length) ((mem_cons.mp mem).resolve_left other)

theorem Env.rel_lookup_zip {args' : List (Data G)} (each : Forall₂ (Data.Rel related) args args')
    (same_length : args.length = params.length)
    (around : name ∉ params → Option.Rel (Data.Rel related) (env.lookup name) (env'.lookup name)) :
    Option.Rel (Data.Rel related) ((params.zip args ++ env).lookup name)
      ((params.zip args' ++ env').lookup name) := by
  induction params generalizing args args' with
  | nil =>
    cases each with
    | nil => exact around nofun
    | cons => cases same_length
  | cons _ _ ih =>
    cases each with
    | nil => cases same_length
    | cons first rest =>
      rw [zip_cons_cons, zip_cons_cons, cons_append, cons_append, lookup_cons, lookup_cons]
      split
      · exact .some first
      · next other => exact ih rest (Nat.succ.inj same_length) fun absent => around (by simp [other, absent])

namespace Exec

theorem agree_read {name' : String}
    (values : Option.Rel (Data.Rel related) (env.lookup name) (env'.lookup name')) :
    Agree related (Data.Rel related) (read env name) (read env' name') :=
  .orHalt values

theorem agree_readAll (change : String → String) {names : List String}
    (values : ∀ name ∈ names,
      Option.Rel (Data.Rel related) (env.lookup name) (env'.lookup (change name))) :
    Agree related (Forall₂ (Data.Rel related)) (readAll env names)
      (readAll env' (names.map change)) := by
  induction names with
  | nil => exact .pure .nil
  | cons name _ ih =>
    refine .bind (agree_read (values name (.head _))) fun _ _ first => ?_
    refine .bind (ih fun name mem => values name (.tail _ mem)) fun _ _ rest => ?_
    exact .pure (.cons first rest)

def Enters (related : F → G → Prop) (enter : F → List (Data F) → RunM F (Data F))
    (enter' : G → List (Data G) → RunM G (Data G)) : Prop :=
  ∀ code code', related code code' → ∀ args args', List.Forall₂ (Data.Rel related) args args' →
    Agree related (Data.Rel related) (enter code args) (enter' code' args')

theorem agree_callValue (host : Host) {enter : F → List (Data F) → RunM F (Data F)}
    {enter' : G → List (Data G) → RunM G (Data G)} (enters : Enters related enter enter')
    {callee : Data F} {callee' : Data G} (callees : Data.Rel related callee callee')
    {args' : List (Data G)} (each : Forall₂ (Data.Rel related) args args') :
    Agree related (Data.Rel related) (callValue host enter callee args)
      (callValue host enter' callee' args') := by
  cases callees with
  | external name => exact agree_callExternal host name each
  | function codes => exact enters _ _ codes _ _ each
  | _ => exact .halt .stuck

theorem agree_choose {post : α → β → Prop} {test : Data F} {test' : Data G}
    (tests : Data.Rel related test test') {yes no : RunM F α} {yes' no' : RunM G β}
    (on_yes : Agree related post yes yes') (on_no : Agree related post no no') :
    Agree related post (choose test yes no) (choose test' yes' no') := by
  cases tests with
  | lit value =>
    cases value with
    | bool truth =>
      cases truth with
      | true => exact on_yes
      | false => exact on_no
    | _ => exact .halt .stuck
  | _ => exact .halt .stuck

theorem op_eq_compute (host : Host) (convention : Convention F) (env : Env F) {op : Op} (basic : op.Basic) :
    Exec.op host convention env op = (do
      let operands ← readAll env op.operands
      compute host op operands) := by
  cases op with
  | call | closure => cases basic
  | _ => rfl

end Exec

end

end MiddleEnd
