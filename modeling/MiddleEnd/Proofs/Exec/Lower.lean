import MiddleEnd.Proofs.Code.Normal
import MiddleEnd.Proofs.Exec.Forward
import MiddleEnd.Proofs.Exec.Source

/-! Lowering keeps the meaning of programs. Code in normal form does what its expression does: the names
of binders keep their values, because no name is defined twice. -/

namespace MiddleEnd

open List

variable {after : Env Closure} {source : Run} {F : Type} {host : Host} {expr bound body : Term}
  {place : Span} {loads : Code} {env : Env F} {text' : String} {values : List Val} {env' : Env Closure}
  {taken names : List String} {convention : Convention F} {label : Nat → String} {value' : Data Closure}
  {binder : Binder Symbol Annotation} {name text : String} {symbol : Symbol} {whole : Term}
  {parts : List Term} {op : Op} {runs : List Run} {note : Span} {value : Val}

namespace Exec

theorem exists_step (host : Host) (convention : Convention F) (env : Env F) (instr : Instr Block)
    (rest : Code) :
    ∃ step : RunM F (Data F), code host convention env (instr :: rest) =
      step >>= fun value => code host convention ((instr.name, value) :: env) rest := by
  obtain ⟨id, name, _, value⟩ := instr
  cases value with
  | op => exact ⟨_, rfl⟩
  | branch test yes no =>
    refine ⟨do
      let test ← read env test
      choose test (block host convention env yes) (block host convention env no), ?_⟩
    rw [code, bind_assoc]
  | function => exact ⟨_, rfl⟩

theorem code_append (front back : Code) (env : Env F) :
    code host convention env (front ++ back) =
      code host convention env front >>= fun env => code host convention env back := by
  induction front generalizing env with
  | nil => rw [nil_append, code, pure_bind]
  | cons instr _ ih =>
    obtain ⟨id, _, _, value⟩ := instr
    cases value <;> simp only [cons_append, code, ih, bind_assoc]

theorem lookup_code {code : Code} {after : Env F} {machine later : Machine F}
    (ended : (Exec.code host convention env code).run.run machine = (.ok after, later)) :
    ∀ name ∉ Code.defs code, after.lookup name = env.lookup name := by
  induction code generalizing env machine with
  | nil =>
    cases ended
    exact fun _ _ => rfl
  | cons instr rest ih =>
    intro name other
    rw [Code.defs_cons, mem_append, mem_append, not_or, not_or] at other
    obtain ⟨_, same⟩ := exists_step host convention env instr rest
    rw [same, RunM.run_bind] at ended
    split at ended
    · rw [ih ended name other.2.2, Env.lookup_cons, if_neg]
      exact fun same => other.1 (same ▸ mem_cons_self)
    · cases ended

end Exec

theorem Follows.framed {α : Type} {related : Lambda → F → Prop} {post : α → Env F → Prop}
    {run : EvalM α} {code : Code}
    (follows : Follows related post run (Exec.code host convention env code)) : Follows related
      (fun value after => post value after ∧ ∀ name ∉ Code.defs code, after.lookup name = env.lookup name)
      run (Exec.code host convention env code) :=
  follows.with_run fun _ _ _ ended => Exec.lookup_code ended

theorem Env.lookup_cons_zip {own : String} {params : List String} {value : Data F}
    {args : List (Data F)} (other : own ∉ params) :
    List.lookup name ((own, value) :: (params.zip args ++ env)) =
      (params.zip args ++ (own, value) :: env).lookup name := by
  induction params generalizing args with
  | nil => rfl
  | cons param _ ih =>
    cases args with
    | nil => rfl
    | cons _ _ =>
      rw [mem_cons, not_or] at other
      rw [zip_cons_cons, cons_append, cons_append, lookup_cons, lookup_cons,
        lookup_cons _ param, ← ih other.2, lookup_cons]
      split
      · next same => rw [if_neg (same ▸ other.1)]
      · rfl

theorem Run.name_mem_defs (run : Run) : run.name ∈ Code.defs run.all :=
  Code.name_mem_defs (by simp [all])

section

variable (label : Nat → String)

inductive Compiles : Lambda → Closure → Prop
  | mk {name : Symbol} {params : List Symbol} {body : Term} {env : List (Nat × Val)} {inner : Run}
    {text : String} {env' : Env Closure}
    (labelled : ∀ symbol ∈ name :: params, label symbol.number = symbol.name)
    (codes : Codes label body inner.front inner.last.value)
    (nodup : (name.name :: params.map Symbol.name ++ Code.defs inner.all).Nodup)
    (apart : ∀ n, env.lookup n ≠ none →
      label n ∉ name.name :: params.map Symbol.name ++ Code.defs inner.all)
    (seen : ∀ n value, env.lookup n = some value →
      Option.Rel (Data.Rel Compiles) (some value.data) (env'.lookup (label n))) :
    Compiles ⟨name, params, body, env⟩
      (.mk name.name (params.map Symbol.name) (.mk text inner.all) env')

def Leaves (name : String) (value : Val) (env' : Env Closure) : Prop :=
  Option.Rel (Data.Rel (Compiles label)) (some value.data) (env'.lookup name)

structure Mirrors (taken : List String) (env : List (Nat × Val)) (env' : Env Closure) : Prop where
  apart : ∀ n, env.lookup n ≠ none → label n ∉ taken
  seen : ∀ n value, env.lookup n = some value → Leaves label (label n) value env'

end

theorem Leaves.exists_data (leaves : Leaves label name value env') :
    ∃ value', env'.lookup name = some value' ∧ Val.Rel (Compiles label) value value' := by
  obtain ⟨value', found, values⟩ := exists_of_rel_some leaves
  exact ⟨value', found, values⟩

theorem Leaves.of_lookup (leaves : Leaves label name value env')
    (same : after.lookup name = env'.lookup name) : Leaves label name value after := by
  rwa [Leaves, same]

theorem Leaves.here (values : Val.Rel (Compiles label) value value') :
    Leaves label name value ((name, value') :: env') := by
  rw [Leaves, Env.lookup_cons, if_pos rfl]
  exact .some values

namespace Mirrors

variable {taken' : List String} {env : List (Nat × Val)}

theorem mono (mirrors : Mirrors label taken env env') (subset : taken' ⊆ taken) :
    Mirrors label taken' env env' :=
  ⟨fun n bound mem => mirrors.apart n bound (subset mem), mirrors.seen⟩

theorem later (mirrors : Mirrors label taken env env')
    (framed : ∀ name ∉ taken, after.lookup name = env'.lookup name) : Mirrors label taken env after := by
  refine ⟨mirrors.apart, fun n value found => ?_⟩
  refine (mirrors.seen n value found).of_lookup (framed _ (mirrors.apart n ?_))
  rw [found]
  exact nofun

theorem front (mirrors : Mirrors label (taken ++ taken') env env') : Mirrors label taken env env' :=
  mirrors.mono (subset_append_left _ _)

theorem past (mirrors : Mirrors label (taken ++ taken') env env')
    (framed : ∀ name ∉ taken, after.lookup name = env'.lookup name) : Mirrors label taken' env after := by
  refine (mirrors.later fun name other => framed name ?_).mono (subset_append_right _ _)
  exact fun mem => other (mem_append_left _ mem)

section

variable (mirrors : Mirrors label taken env env')
include mirrors

theorem bind (labelled : label symbol.number = symbol.name)
    (leaves : Leaves label symbol.name value env') (fresh : symbol.name ∉ taken) :
    Mirrors label taken ((symbol.number, value) :: env) env' := by
  have lookup (n : Nat) : List.lookup n ((symbol.number, value) :: env) =
      if n = symbol.number then some value else env.lookup n := by
    rw [List.lookup_cons]
    by_cases same : n = symbol.number
    · simp [same]
    · simp [same, beq_false_of_ne same]
  refine ⟨fun n bound => ?_, fun n other found => ?_⟩
  · rw [lookup] at bound
    split at bound
    · next same => rwa [same, labelled]
    · exact mirrors.apart n bound
  · rw [lookup] at found
    split at found
    · next same =>
      cases found
      rwa [same, labelled]
    · exact mirrors.seen n other found

theorem skip (own : name ∈ taken) (value : Data Closure) :
    Mirrors label taken env ((name, value) :: env') := by
  refine mirrors.later fun _ absent => ?_
  rw [Env.lookup_cons, if_neg]
  exact fun same => absent (same ▸ own)

theorem cons (labelled : label symbol.number = symbol.name) (own : symbol.name ∈ taken)
    (subset : taken' ⊆ taken) (fresh : symbol.name ∉ taken')
    (values : Val.Rel (Compiles label) value value') :
    Mirrors label taken' ((symbol.number, value) :: env) ((symbol.name, value') :: env') :=
  ((mirrors.skip own value').mono subset).bind labelled (.here values) fresh

theorem of_lookup (same : ∀ name, after.lookup name = env'.lookup name) :
    Mirrors label taken env after :=
  ⟨mirrors.apart, fun n value found => (mirrors.seen n value found).of_lookup (same _)⟩

end

theorem params {params : List Symbol} (labelled : ∀ symbol ∈ params, label symbol.number = symbol.name)
    {args : List Val} {args' : List (Data Closure)}
    (each : Forall₂ (Val.Rel (Compiles label)) args args') (same_length : args.length = params.length)
    (nodup : (params.map Symbol.name ++ taken).Nodup)
    (mirrors : Mirrors label (params.map Symbol.name ++ taken) env env') :
    Mirrors label taken (Eval.bindAll env params args) ((params.map Symbol.name).zip args' ++ env') := by
  induction params generalizing env env' args args' with
  | nil =>
    obtain rfl := length_eq_zero_iff.mp same_length
    exact mirrors
  | cons param _ ih =>
    cases each with
    | nil => cases same_length
    | @cons arg arg' args args' first rest =>
      rw [map_cons, cons_append] at nodup mirrors
      obtain ⟨fresh, rest_nodup⟩ := nodup_cons.mp nodup
      have bound := mirrors.cons (labelled param (.head _)) (.head _) (subset_cons_self _ _) fresh first
      refine (ih (fun symbol mem => labelled symbol (.tail _ mem)) rest
        (Nat.succ.inj same_length) rest_nodup bound).of_lookup fun name => ?_
      rw [map_cons, zip_cons_cons, cons_append]
      exact Env.lookup_cons_zip fun mem => fresh (mem_append_left _ mem)

end Mirrors

section

variable (strict : Strict whole parts op)
include strict

theorem Strict.exists_step (host : Host) (call : Val → List Val → EvalM Val)
    (related : Lambda → F → Prop) : ∃ step : List Val → EvalM Val,
      (∀ env, Eval.expr host.world call env whole = Eval.exprs host.world call env parts >>= step) ∧
      ∀ values values', Forall₂ (Val.Rel related) values values' →
        Follows related (Val.Rel related) (step values) (Exec.compute host op values') := by
  cases strict with
  | lit _ value =>
    refine ⟨Eval.noOperands (return .lit value), fun env => ?_, fun _ _ each => ?_⟩
    · rw [Eval.exprs_noOperands, Eval.expr]
    · exact .noOperands each (.pure (.lit value))
  | @external note ref name target =>
    refine ⟨Eval.noOperands (return .external name), fun env => ?_, fun _ _ each => ?_⟩
    · rw [Eval.exprs_noOperands, Eval.expr, target]
      rfl
    · exact .noOperands each (.pure (.external name))
  | unary _ op _ _ =>
    refine ⟨Eval.oneOperand (Eval.unary host.world op), fun env => ?_, fun _ _ each => ?_⟩
    · rw [Eval.exprs_oneOperand, Eval.expr]
    · exact .oneOperand each (.unary host op)
  | binary _ op _ _ _ _ =>
    refine ⟨Eval.twoOperands (Eval.binary host.world op), fun env => ?_, fun _ _ each => ?_⟩
    · rw [Eval.exprs_twoOperands, Eval.expr]
    · exact .twoOperands each (.binary host op)
  | tuple _ _ _ =>
    refine ⟨fun values => return .tuple values, fun env => ?_, fun values values' each => .pure ?_⟩
    · rw [Eval.expr]
    · rw [Val.Rel, Val.data, Val.dataOf_eq]
      exact .tuple (forall₂_map_left_iff.mpr each)
  | arrayLit _ _ _ =>
    exact ⟨Eval.allocate, fun env => by rw [Eval.expr], fun _ _ each => .allocate each⟩
  | some _ element _ =>
    refine ⟨Eval.oneOperand fun element => return .some element, fun env => ?_, fun _ _ each => ?_⟩
    · rw [Eval.exprs_oneOperand, Eval.expr]
    · exact .oneOperand each fun inner => .pure (.some inner)
  | none _ =>
    refine ⟨Eval.noOperands (return .none), fun env => ?_, fun _ _ each => ?_⟩
    · rw [Eval.exprs_noOperands, Eval.expr]
    · exact .noOperands each (.pure .none)
  | arrayMake _ _ _ _ _ =>
    refine ⟨Eval.twoOperands Eval.arrayMake, fun env => ?_, fun _ _ each => ?_⟩
    · rw [Eval.exprs_twoOperands, Eval.expr]
      rfl
    · exact .twoOperands each .arrayMake
  | arrayLen _ _ _ =>
    refine ⟨Eval.oneOperand Eval.arrayLen, fun env => ?_, fun _ _ each => ?_⟩
    · rw [Eval.exprs_oneOperand, Eval.expr]
      rfl
    · exact .oneOperand each .arrayLen
  | arrayGet _ _ _ _ _ =>
    refine ⟨Eval.twoOperands Eval.arrayGet, fun env => ?_, fun _ _ each => ?_⟩
    · rw [Eval.exprs_twoOperands, Eval.expr]
      rfl
    · exact .twoOperands each .arrayGet
  | arraySet _ _ _ _ _ _ _ =>
    refine ⟨Eval.threeOperands Eval.arraySet, fun env => ?_, fun _ _ each => ?_⟩
    · rw [Eval.exprs_threeOperands, Eval.expr]
      rfl
    · exact .threeOperands each .arraySet

theorem Strict.parts_eq : whole.parts = parts.map (Prod.mk []) := by
  cases strict <;> rfl

theorem Strict.basic : op.Basic := by
  cases strict <;> trivial

end

namespace Exec

variable {call : Val → List Val → EvalM Val}
  {enter : Closure → List (Data Closure) → RunM Closure (Data Closure)} {env : List (Nat × Val)}

def Realizes (label : Nat → String) (host : Host) (call : Val → List Val → EvalM Val)
    (enter : Closure → List (Data Closure) → RunM Closure (Data Closure)) (expr : Term) (front : Code)
    (value : Value Block) : Prop :=
  ∀ (id : Nat) (name : String) (span : Span) (env : List (Nat × Val)) (env' : Env Closure),
    (Code.defs (front ++ [⟨id, name, span, value⟩])).Nodup →
    Mirrors label (Code.defs (front ++ [⟨id, name, span, value⟩])) env env' →
      Follows (Compiles label) (Leaves label name) (Eval.expr host.world call env expr)
        (Exec.code host (Closure.convention host enter) env' (front ++ [⟨id, name, span, value⟩]))

theorem Realizes.run {run : Run}
    (realizes : Realizes label host call enter expr run.front run.last.value)
    (nodup : (Code.defs run.all).Nodup) (mirrors : Mirrors label (Code.defs run.all) env env') :
    Follows (Compiles label)
      (fun value after => Leaves label run.name value after ∧
        ∀ name ∉ Code.defs run.all, after.lookup name = env'.lookup name)
      (Eval.expr host.world call env expr)
      (Exec.code host (Closure.convention host enter) env' run.all) :=
  (realizes run.last.id run.last.name run.last.span env env' nodup mirrors).framed

theorem realize_parts
    (each : Forall₂ (fun part run => Realizes label host call enter part run.front run.last.value)
      parts runs) (nodup : (Code.defs (runs.flatMap Run.all)).Nodup)
    (mirrors : Mirrors label (Code.defs (runs.flatMap Run.all)) env env') :
    Follows (Compiles label) (fun values after =>
        Forall₂ (fun value run => Leaves label (Run.name run) value after) values runs)
      (Eval.exprs host.world call env parts)
      (Exec.code host (Closure.convention host enter) env' (runs.flatMap Run.all)) := by
  induction each generalizing env' with
  | nil => exact .pure .nil
  | @cons part run parts runs realizes _ ih =>
    rw [flatMap_cons, Code.defs_append] at nodup mirrors
    obtain ⟨run_nodup, rest_nodup, disjoint⟩ := nodup_append.mp nodup
    rw [flatMap_cons, code_append, Eval.exprs]
    refine .bind (realizes.run run_nodup mirrors.front) ?_
    rintro value after ⟨leaves, framed⟩
    refine .map_left (ih rest_nodup (mirrors.past framed)).framed ?_
    rintro values last ⟨rest, kept⟩
    refine .cons (leaves.of_lookup (kept _ fun mem => ?_)) rest
    exact disjoint _ run.name_mem_defs _ mem rfl

theorem exists_read (leaves : Leaves label name value env') :
    ∃ value', read env' name = pure value' ∧ Val.Rel (Compiles label) value value' := by
  obtain ⟨value', found, values⟩ := leaves.exists_data
  exact ⟨value', by rw [read, found]; rfl, values⟩

theorem exists_readAll_runs
    (each : Forall₂ (fun value run => Leaves label (Run.name run) value env') values runs) :
    ∃ values', readAll env' (runs.map Run.name) = pure values' ∧
      Forall₂ (Val.Rel (Compiles label)) values values' := by
  induction each with
  | nil => exact ⟨[], rfl, .nil⟩
  | cons leaves _ ih =>
    obtain ⟨value', ran, values⟩ := exists_read leaves
    obtain ⟨values', ran_rest, rest⟩ := ih
    refine ⟨value' :: values', ?_, .cons values rest⟩
    rw [map_cons, readAll, ran, pure_bind, ran_rest, pure_bind]

theorem block_cons {id : Nat} {span : Span} {value : Data Closure}
    (ran : Exec.op host (Closure.convention host enter) env' op = pure value) (run : Run)
    (text : String) :
    block host (Closure.convention host enter) env' (.mk text (⟨id, name, span, .op op⟩ :: run.all)) =
      block host (Closure.convention host enter) ((name, value) :: env') (.mk text run.all) := by
  have last (instr : Instr Block) : (instr :: run.all).getLast? = run.all.getLast? := by
    rw [Run.all, ← cons_append, getLast?_concat, getLast?_concat]
  simp only [block, Exec.code, ran, pure_bind, last]

theorem Realizes.block {run : Run}
    (realizes : Realizes label host call enter expr run.front run.last.value)
    (nodup : (Code.defs run.all).Nodup) (mirrors : Mirrors label (Code.defs run.all) env env')
    (text : String) :
    Follows (Compiles label) (Val.Rel (Compiles label)) (Eval.expr host.world call env expr)
      (Exec.block host (Closure.convention host enter) env' (.mk text run.all)) := by
  have last : run.all.getLast? = some run.last := getLast?_concat ..
  rw [Exec.block, ← bind_pure (Eval.expr host.world call env expr)]
  refine .bind (realizes.run nodup mirrors) fun value _ spec => ?_
  obtain ⟨_, ran, values⟩ := exists_read spec.1
  rw [last]
  dsimp only
  rw [← Run.name, ran]
  exact .pure values

theorem realizes_strict (shape : Strict whole parts op)
    (each : Forall₂ (fun part run => Realizes label host call enter part run.front run.last.value)
      parts runs) (operands : op.operands = runs.map Run.name) :
    Realizes label host call enter whole (runs.flatMap Run.all) (.op op) := by
  intro _ _ _ _ _ nodup mirrors
  obtain ⟨_, same, steps⟩ := shape.exists_step host call (Compiles label)
  rw [Code.defs_append] at nodup mirrors
  rw [same, code_append]
  refine .bind (realize_parts each (nodup_append.mp nodup).1
    mirrors.front) fun values after leaves => ?_
  obtain ⟨_, ran, each⟩ := exists_readAll_runs leaves
  simp only [Exec.code, op_eq_compute host _ after shape.basic, operands, ran, pure_bind]
  exact .map_right (steps _ _ each) fun value _ values => .here values

theorem realizes_bound {ref : Reference} (target : ref.target = .bound symbol)
    (labelled : label symbol.number = symbol.name) :
    Realizes label host call enter (.var note ref) [] (.op (.ref symbol.name)) := by
  intro _ _ _ env _ _ mirrors
  rw [Eval.expr, target]
  dsimp only
  cases found : env.lookup symbol.number with
  | none => exact .stuck _
  | some value =>
    have leaves := mirrors.seen symbol.number value found
    rw [labelled] at leaves
    obtain ⟨_, there, values⟩ := leaves.exists_data
    simp only [nil_append, Exec.code, op_ref there, pure_bind]
    exact .pure (.here values)

theorem realizes_cond {test yes no : Term} {tested first second : Run}
    (test_realizes : Realizes label host call enter test tested.front tested.last.value)
    (yes_realizes : Realizes label host call enter yes first.front first.last.value)
    (no_realizes : Realizes label host call enter no second.front second.last.value) :
    Realizes label host call enter (.cond note test yes no) tested.all
      (.branch tested.name (.mk text first.all) (.mk text' second.all)) := by
  intro _ _ _ _ _ nodup mirrors
  rw [Code.defs_append, Code.defs_branch] at nodup mirrors
  obtain ⟨test_nodup, rest_nodup, _⟩ := nodup_append.mp nodup
  rw [Eval.expr, code_append]
  refine .bind (test_realizes.run test_nodup mirrors.front) ?_
  rintro value _ ⟨leaves, framed⟩
  obtain ⟨_, ran, values⟩ := exists_read leaves
  have later := mirrors.past framed
  have arms := (nodup_append.mp (nodup_cons.mp rest_nodup).2).1
  obtain ⟨yes_nodup, no_nodup, _⟩ := nodup_append.mp arms
  simp only [Exec.code, ran, pure_bind]
  split
  · cases values
    exact .map_right (yes_realizes.block yes_nodup (later.mono (by grind)) text) fun _ _ => .here
  · cases values
    exact .map_right (no_realizes.block no_nodup (later.mono (by grind)) text') fun _ _ => .here
  · exact .stuck _

theorem realizes_letIn {given : Run} {front : Code} {value : Value Block}
    (labelled : label binder.name.number = binder.name.name) (named : given.name = binder.name.name)
    (bound_realizes : Realizes label host call enter bound given.front given.last.value)
    (body_realizes : Realizes label host call enter body front value) :
    Realizes label host call enter (.letIn note binder bound body) (given.all ++ front) value := by
  intro id name span _ _ nodup mirrors
  rw [append_assoc, Code.defs_append] at nodup mirrors
  obtain ⟨given_nodup, body_nodup, disjoint⟩ := nodup_append.mp nodup
  rw [Eval.expr, append_assoc, code_append]
  refine .bind (.binding (bound_realizes.run given_nodup mirrors.front)) ?_
  rintro _ _ ⟨leaves, framed⟩
  have later := mirrors.past framed
  rw [named] at leaves
  refine body_realizes id name span _ _ body_nodup (later.bind labelled leaves fun mem => ?_)
  exact disjoint _ (named ▸ given.name_mem_defs) _ mem rfl

theorem realizes_letRec {own : Symbol} {params : List (Binder Symbol Annotation)}
    {result : Option Annotation} {rest : Term} {inner : Run} {front : Code} {value : Value Block}
    {n : Nat} (labelled : ∀ symbol ∈ own :: params.map Binder.name, label symbol.number = symbol.name)
    (named : names = (params.map Binder.name).map Symbol.name)
    (body_codes : Codes label body inner.front inner.last.value)
    (rest_realizes : Realizes label host call enter rest front value) :
    Realizes label host call enter (.letRec note own params result body rest)
      (⟨n, own.name, place, .function names (.mk text inner.all) false⟩ :: front) value := by
  subst named
  intro id name span env env' nodup mirrors
  rw [cons_append, Code.defs_function, ← append_assoc] at nodup mirrors
  obtain ⟨own_nodup, rest_nodup, disjoint⟩ := nodup_append.mp nodup
  have functions : Val.Rel (Compiles label) (.closure own (params.map Binder.name) body env)
      (.function (.mk own.name ((params.map Binder.name).map Symbol.name) (.mk text inner.all) env')) :=
    .function (.mk labelled body_codes own_nodup
      (fun n bound mem => mirrors.apart n bound (mem_append_left _ mem)) mirrors.seen)
  rw [Eval.expr]
  simp only [cons_append, Exec.code, Closure.convention, pure_bind]
  refine rest_realizes id name span _ _ rest_nodup (mirrors.cons (labelled own (.head _))
    (by simp) (subset_append_right _ _) (fun mem => ?_) functions)
  exact disjoint _ (by simp) _ mem rfl

theorem exists_loads {source : String} {index : Nat} {symbols : List Symbol}
    (apart : Loads source index symbols loads) {datas : List (Data Closure)}
    (found : env'.lookup source = some (.tuple datas))
    (each : Forall₂ (Val.Rel (Compiles label)) values (datas.drop index))
    (same_length : values.length = symbols.length)
    (labelled : ∀ symbol ∈ symbols, label symbol.number = symbol.name)
    (other : source ∉ Code.defs loads) (nodup : (Code.defs loads ++ taken).Nodup)
    (mirrors : Mirrors label (Code.defs loads ++ taken) env env') :
    ∃ after, Exec.code host (Closure.convention host enter) env' loads = pure after ∧
      Mirrors label taken (Eval.bindAll env symbols values) after := by
  induction apart generalizing env env' values with
  | nil =>
    obtain rfl := length_eq_zero_iff.mp same_length
    exact ⟨env', rfl, mirrors.mono (subset_append_right _ _)⟩
  | @cons index id span symbol symbols loads rest ih =>
    cases values with
    | nil => cases same_length
    | cons _ _ =>
      generalize dropped : datas.drop index = remaining at each
      cases each with
      | @cons _ data _ remaining first each =>
        have here : datas[index]? = some data := by
          have start := congrArg (·[0]?) dropped
          simpa using start
        have beyond : datas.drop (index + 1) = remaining := by
          rw [← drop_drop, dropped]
          rfl
        rw [Code.defs_op, mem_cons, not_or] at other
        rw [Code.defs_op, cons_append] at nodup mirrors
        have ran : Exec.op host (Closure.convention host enter) env' (.field source index) = pure data := by
          simp [Exec.op, Op.operands, readAll, read, found, orHalt, compute, oneOperand, field, here]
        obtain ⟨fresh, rest_nodup⟩ := nodup_cons.mp nodup
        have later := mirrors.cons (labelled symbol (.head _)) (.head _)
          (subset_cons_self _ _) fresh first
        obtain ⟨after, loaded, bound⟩ := ih (by rw [Env.lookup_cons, if_neg other.1, found])
          (beyond ▸ each) (Nat.succ.inj same_length)
          (fun symbol mem => labelled symbol (.tail _ mem)) other.2 rest_nodup later
        exact ⟨after, by rw [Exec.code, ran, pure_bind, loaded], bound⟩

theorem realizes_letTuple {binders : List (Binder Symbol Annotation)} {front : Code}
    {value : Value Block}
    (labelled : ∀ symbol ∈ binders.map Binder.name, label symbol.number = symbol.name)
    (bound_realizes : Realizes label host call enter bound source.front source.last.value)
    (apart : Loads source.name 0 (binders.map Binder.name) loads)
    (body_realizes : Realizes label host call enter body front value) :
    Realizes label host call enter (.letTuple note binders bound body) (source.all ++ loads ++ front)
      value := by
  intro id name span _ _ nodup mirrors
  rw [append_assoc, append_assoc, Code.defs_append, Code.defs_append] at nodup mirrors
  obtain ⟨source_nodup, rest_nodup, disjoint⟩ := nodup_append.mp nodup
  rw [Eval.expr, append_assoc, append_assoc, code_append]
  refine .bind (.binding (bound_realizes.run source_nodup mirrors.front)) ?_
  rintro tuple _ ⟨leaves, framed⟩
  have later := mirrors.past framed
  obtain ⟨_, found, tuples⟩ := leaves.exists_data
  split
  · next elements =>
    split
    · next same_length =>
      rw [Val.Rel, Val.data, Val.dataOf_eq] at tuples
      cases tuples with
      | @tuple _ datas each =>
        rw [forall₂_map_left_iff] at each
        obtain ⟨_, loaded, bound⟩ := exists_loads apart found each same_length labelled
          (fun mem => disjoint _ source.name_mem_defs _ (mem_append_left _ mem) rfl) rest_nodup
          later
        rw [code_append, loaded, pure_bind]
        exact body_realizes id name span _ _ (nodup_append.mp rest_nodup).2.1 bound
    · exact .stuck _
  · exact .stuck _

def Calls (label : Nat → String) (host : Host) (call : Val → List Val → EvalM Val)
    (enter : Closure → List (Data Closure) → RunM Closure (Data Closure)) : Prop :=
  ∀ callee callee', Val.Rel (Compiles label) callee callee' → ∀ args args',
    List.Forall₂ (Val.Rel (Compiles label)) args args' →
      Follows (Compiles label) (Val.Rel (Compiles label)) (call callee args)
        (callValue host enter callee' args')

theorem realizes_apply (calls : Calls label host call enter) {callee : Term} {args : List Term}
    {called : Run}
    (callee_realizes : Realizes label host call enter callee called.front called.last.value)
    (each : Forall₂ (fun arg run => Realizes label host call enter arg run.front run.last.value)
      args runs) :
    Realizes label host call enter (.apply note callee args) (called.all ++ runs.flatMap Run.all)
      (.op (.call .direct called.name (runs.map Run.name))) := by
  intro _ name _ _ _ nodup mirrors
  rw [append_assoc, Code.defs_append, Code.defs_append] at nodup mirrors
  obtain ⟨called_nodup, rest_nodup, disjoint⟩ := nodup_append.mp nodup
  rw [Eval.expr, append_assoc, code_append]
  refine .bind (callee_realizes.run called_nodup mirrors.front) ?_
  rintro _ after ⟨leaves, framed⟩
  have later := mirrors.past framed
  rw [code_append]
  refine .bind (realize_parts each (nodup_append.mp rest_nodup).1 later.front).framed ?_
  rintro _ last ⟨given, kept⟩
  -- the callee was evaluated first, and its name is read after those of the arguments
  have still := leaves.of_lookup (kept called.name fun mem =>
    disjoint _ called.name_mem_defs _ (mem_append_left _ mem) rfl)
  obtain ⟨_, ran, each⟩ := exists_readAll_runs given
  obtain ⟨_, found, functions⟩ := exists_read still
  simp only [Exec.code, Exec.op, Closure.convention, ran, found, pure_bind]
  exact .map_right (calls _ _ functions _ _ each) fun _ _ => .here

theorem realizes_matchOption {target someArm noneArm : Term} {first second : Run} {check content : Nat}
    {place' : Span} {test : String} (labelled : label binder.name.number = binder.name.name)
    (target_realizes : Realizes label host call enter target source.front source.last.value)
    (some_realizes : Realizes label host call enter someArm first.front first.last.value)
    (none_realizes : Realizes label host call enter noneArm second.front second.last.value) :
    Realizes label host call enter (.matchOption note target binder someArm noneArm)
      (source.all ++ [⟨check, test, place, .op (.isSome source.name)⟩])
      (.branch test
        (.mk text (⟨content, binder.name.name, place', .op (.unwrap source.name)⟩ :: first.all))
        (.mk text' second.all)) := by
  intro _ name _ env _ nodup mirrors
  rw [append_assoc, Code.defs_append, singleton_append, Code.defs_op, Code.defs_branch,
    Code.defs_op] at nodup mirrors
  obtain ⟨source_nodup, rest_nodup, disjoint⟩ := nodup_append.mp nodup
  rw [Eval.expr, append_assoc, code_append]
  refine .bind (target_realizes.run source_nodup mirrors.front) ?_
  rintro _ after ⟨leaves, framed⟩
  have later := mirrors.past framed
  obtain ⟨_, found, options⟩ := leaves.exists_data
  have differs : source.name ≠ test := disjoint _ source.name_mem_defs _ (.head _)
  have arms := (nodup_append.mp (nodup_cons.mp (nodup_cons.mp rest_nodup).2).2).1
  obtain ⟨opened_nodup, none_nodup, _⟩ := nodup_append.mp arms
  obtain ⟨fresh, some_nodup⟩ := nodup_cons.mp opened_nodup
  have tested (value : Data Closure) : read ((test, value) :: after) test = pure value := by
    rw [read, Env.lookup_cons, if_pos rfl]
    rfl
  split
  · cases options with
    | @some _ element' elements =>
      have checked : Exec.op host (Closure.convention host enter) after (.isSome source.name) =
          pure (.lit (.bool true)) := by
        simp [Exec.op, Op.operands, readAll, read, found, orHalt, compute, oneOperand, isSome]
      have opened (value : Data Closure) : Exec.op host (Closure.convention host enter)
          ((test, value) :: after) (.unwrap source.name) = pure element' := by
        simp [Exec.op, Op.operands, readAll, read, Env.lookup_cons, differs, found, orHalt, compute,
          oneOperand, unwrap]
      simp only [singleton_append, Exec.code, checked, tested, choose, pure_bind, block_cons (opened _)]
      have skipped : Mirrors label _ env ((test, .lit (.bool true)) :: after) := later.skip (by simp) _
      have bound := skipped.cons labelled (by simp) (by grind) fresh elements
      exact .map_right (some_realizes.block some_nodup bound text) fun _ _ => .here
  · cases options
    have checked : Exec.op host (Closure.convention host enter) after (.isSome source.name) =
        pure (.lit (.bool false)) := by
      simp [Exec.op, Op.operands, readAll, read, found, orHalt, compute, oneOperand, isSome]
    simp only [singleton_append, Exec.code, checked, tested, choose, pure_bind]
    have skipped : Mirrors label _ env ((test, .lit (.bool false)) :: after) := later.skip (by simp) _
    exact .map_right (none_realizes.block none_nodup (skipped.mono (by grind)) text') fun _ _ => .here
  · exact .stuck _

theorem realizes (calls : Calls label host call enter) {front : Code} {value : Value Block}
    (codes : Codes label expr front value) : Realizes label host call enter expr front value := by
  induction expr using Expr.part_induction generalizing front value with
  | step expr ih =>
    have inner {part : Term} {front : Code} {value : Value Block} (codes : Codes label part front value)
        (inside : part ∈ expr.parts.map Prod.snd := by simp [Expr.parts]) :
        Realizes label host call enter part front value := by
      obtain ⟨whole, mem, rfl⟩ := mem_map.mp inside
      exact ih whole mem codes
    have each {parts : List Term} {runs : List Run}
        (codes : Forall₂ (fun part run => Codes label part run.front run.last.value) parts runs)
        (inside : ∀ part ∈ parts, part ∈ expr.parts.map Prod.snd) :
        Forall₂ (fun part run => Realizes label host call enter part run.front run.last.value)
          parts runs := by
      induction codes with
      | nil => exact .nil
      | cons first _ rest_ih =>
        refine .cons (inner first (inside _ (.head _))) (rest_ih fun part mem => ?_)
        exact inside part (.tail _ mem)
    cases codes with
    | strict shape codes operands =>
      refine realizes_strict shape (each codes fun part mem => ?_) operands
      simpa [shape.parts_eq] using mem
    | bound target labelled => exact realizes_bound target labelled
    | cond test_codes yes_codes no_codes =>
      exact realizes_cond (inner test_codes) (inner yes_codes) (inner no_codes)
    | letIn labelled named bound_codes body_codes =>
      exact realizes_letIn labelled named (inner bound_codes) (inner body_codes)
    | letRec labelled named body_codes rest_codes =>
      exact realizes_letRec labelled named body_codes (inner rest_codes)
    | letTuple labelled bound_codes apart body_codes =>
      exact realizes_letTuple labelled (inner bound_codes) apart (inner body_codes)
    | apply callee_codes args_codes =>
      exact realizes_apply calls (inner callee_codes)
        (each args_codes fun _ mem => by simp [Expr.parts, mem])
    | matchOption labelled target_codes some_codes none_codes =>
      exact realizes_matchOption labelled (inner target_codes) (inner some_codes) (inner none_codes)
    | typed child_codes =>
      intro id name span env env' nodup mirrors
      rw [Eval.expr]
      exact inner child_codes (by simp [Expr.parts]) id name span env env' nodup mirrors

theorem calls (label : Nat → String) (host : Host) (fuel : Nat) :
    Calls label host (Eval.apply host.world fuel) (Closure.enter host fuel) := by
  induction fuel with
  | zero => exact fun _ _ _ _ _ _ => .excused Halt.noConfusion _
  | succ _ ih =>
    intro callee _ callees _ _ each
    cases callee with
    | closure name params _ env =>
      have selves := callees
      cases callees with
      | function codes =>
        obtain @⟨_, _, _, _, inner, text, env', labelled, codes, nodup, apart, seen⟩ := codes
        rw [Eval.apply, callValue, Closure.enter, length_map, ← each.length_eq]
        split
        · next same_length =>
          obtain ⟨fresh, _⟩ := nodup_cons.mp nodup
          have moved := perm_middle.nodup_iff.mpr nodup
          have around : Mirrors label (params.map Symbol.name ++ name.name :: Code.defs inner.all) env env' :=
            .mono ⟨apart, seen⟩ (by grind)
          have given := around.params (fun symbol mem => labelled symbol (.tail _ mem))
            each same_length moved
          have bound := given.cons (labelled name (.head _)) (.head _)
            (subset_cons_self _ _) (fun mem => fresh (mem_append_right _ mem)) selves
          -- the source binds the function over its arguments, and the block binds it under them
          have entered := bound.of_lookup fun _ =>
            (Env.lookup_cons_zip fun mem => fresh (mem_append_left _ mem)).symm
          have inner_nodup := (nodup_cons.mp (nodup_append.mp moved).2.1).2
          exact (realizes ih codes).block inner_nodup entered text
        · exact .stuck _
    | external name =>
      cases callees
      exact .callExternal host name each
    | _ => exact .stuck _

end Exec

theorem Module.run_of_codes {module : Module} {program : Resolved} {run : Run}
    (entry : module.entry = .mk "program" run.all)
    (codes : Codes label program.body run.front run.last.value)
    (nodup : (Code.defs module.entry.body).Nodup) (host : Host) (fuel : Nat)
    (not_stuck : (program.run host.world fuel).outcome ≠ .error .stuck)
    (in_time : (program.run host.world fuel).outcome ≠ .error .timeout) :
    module.run host fuel = (program.run host.world fuel).observe := by
  have mirrors : Mirrors label (Code.defs run.all) [] [] := ⟨nofun, nofun⟩
  rw [entry] at nodup
  rw [Module.run, entry]
  exact ((Exec.realizes (Exec.calls label host fuel) codes).block nodup mirrors "program").observe
    not_stuck in_time

/-- Lowering keeps meaning: whatever the host and however deep calls may go, a program that is evaluated
without getting stuck and within its calls ends like the module it is lowered to, with the same heap, and
both call the same externals. -/
theorem Surface.lower_keeps_meaning {program : Surface} (lexed : program.Lexed) {resolved : Resolved}
    {typed : Typed} {settings : Settings} (resolves : program.resolve = .ok resolved)
    (checks : resolved.check settings = .ok typed) :
    ∃ module, typed.lower = .ok module ∧
      ∀ host fuel, (resolved.run host.world fuel).outcome ≠ .error .stuck →
        (resolved.run host.world fuel).outcome ≠ .error .timeout →
          module.run host fuel = (resolved.run host.world fuel).observe := by
  obtain ⟨module, lowered, raw⟩ := exists_lowered lexed resolves checks
  have placed := wellScoped_resolve (.of_names lexed.1 lexed.2) resolves
  have labelled := Resolved.labelled_check placed checks
  obtain ⟨run, entry, codes⟩ := Typed.lower_codes labelled lowered
  rw [Resolved.erase_check placed checks] at codes
  exact ⟨module, lowered, Module.run_of_codes entry codes raw.defs_nodup⟩

/-- `let rec next x = (x, x + 1) in let (a, b) = next 1 in let cells = Array.make 2 a in
let _ = cells.(1) <- b in match Some (confirm (cells.(1))) with Some r -> if r then cells.(1) else a
| None -> 0` -/
def Surface.confirmedCell : Surface :=
  let name (text : String) : Ident := ⟨text, default, 0⟩
  let var (text : String) (order : Nat) : Expr Ident Mention TypeExpr Span :=
    .var default ⟨name text, order⟩
  let int (value : Int) : Expr Ident Mention TypeExpr Span := .lit default (.int value)
  let cell (order : Nat) : Expr Ident Mention TypeExpr Span :=
    .arrayGet default (var "cells" order) (int 1)
  { body :=
      .letRec default (name "next") [⟨name "x", none⟩] none
        (.tuple default [var "x" 0, .binary default .add (var "x" 1) (int 1)])
        (.letTuple default [⟨name "a", none⟩, ⟨name "b", none⟩] (.apply default (var "next" 2) [int 1])
          (.letIn default ⟨name "cells", none⟩ (.arrayMake default (int 2) (var "a" 3))
            (.letIn default ⟨name "_", none⟩ (.arraySet default (var "cells" 4) (int 1) (var "b" 5))
              (.matchOption default (.some default (.apply default (var "confirm" 6) [cell 7]))
                ⟨name "r", none⟩ (.cond default (var "r" 8) (cell 9) (var "a" 10)) (int 0))))) }

def Evaluation.isInt (run : Evaluation Val) (n : Int) : Bool :=
  match run.outcome with
  | .ok (.lit (.int found)) => found == n
  | _ => false

theorem Evaluation.ne_error_of_isInt {run : Evaluation Val} {n : Int}
    (ends : run.isInt n = true) (reason : Halt) : run.outcome ≠ .error reason := by
  intro halted
  simp [isInt, halted] at ends

/-- A tuple is taken apart, a cell is changed and an external is asked; the run ends with what the cell
holds then. -/
theorem Surface.lower_keeps_meaning_confirmedCell : confirmedCell.Lexed ∧
    ∃ resolved typed module, confirmedCell.resolve = .ok resolved ∧
      resolved.check { seedBuiltins := false } = .ok typed ∧ typed.lower = .ok module ∧
      (resolved.run Host.agreeable.world 2).isInt 2 = true ∧
      (module.run .agreeable 2).trace.map Request.name = ["confirm"] ∧
      module.run .agreeable 2 = (resolved.run Host.agreeable.world 2).observe := by
  have lexed : confirmedCell.Lexed := by decide +kernel
  obtain ⟨resolved, typed, resolves, checks, test⟩ :=
    exists_of_accepted confirmedCell { seedBuiltins := false } fun resolved typed =>
      (resolved.run Host.agreeable.world 2).isInt 2 &&
        typed.lowersTo fun module =>
          decide ((module.run .agreeable 2).trace.map Request.name = ["confirm"])
  obtain ⟨module, lowered, same⟩ := lower_keeps_meaning lexed resolves checks
  rw [Typed.lowersTo_eq lowered, Bool.and_eq_true, decide_eq_true_eq] at test
  exact ⟨lexed, resolved, typed, module, resolves, checks, lowered, test.1, test.2,
    same _ _ (Evaluation.ne_error_of_isInt test.1 _) (Evaluation.ne_error_of_isInt test.1 _)⟩

end MiddleEnd
