import Mathlib.Data.List.Nodup
import MiddleEnd.Proofs.Code.Lower
import MiddleEnd.Proofs.Source.Eval
import MiddleEnd.Proofs.Typing.Check

/-! The normal form of expressions: which code stands for an expression, whatever its instructions are
called and counted. Lowering gives code in this form. -/

namespace MiddleEnd

open List

variable {label : Nat → String} {count : Nat} {binders : List (Binder Bound Annotation)} {note : Note}
  {binder : Binder Bound Annotation} {bound body whole : TypedExpr} {parts : List TypedExpr}
  {make : List String → Op}

inductive Strict : Term → List Term → Op → Prop
  | lit (note : Span) (value : Literal) : Strict (.lit note value) [] (.const value)
  | external (note : Span) {ref : Reference} {name : String} (target : ref.target = .external name) :
    Strict (.var note ref) [] (.external name)
  | unary (note : Span) (op : UnaryOp) (operand : Term) (name : String) :
    Strict (.unary note op operand) [operand] (.unary op name)
  | binary (note : Span) (op : BinaryOp) (lhs rhs : Term) (left right : String) :
    Strict (.binary note op lhs rhs) [lhs, rhs] (.binary op left right)
  | tuple (note : Span) (elements : List Term) (names : List String) :
    Strict (.tuple note elements) elements (.tuple names)
  | arrayMake (note : Span) (size element : Term) (left right : String) :
    Strict (.arrayMake note size element) [size, element] (.arrayMake left right)
  | arrayLit (note : Span) (elements : List Term) (names : List String) :
    Strict (.arrayLit note elements) elements (.arrayLit names)
  | arrayLen (note : Span) (array : Term) (name : String) :
    Strict (.arrayLen note array) [array] (.arrayLen name)
  | arrayGet (note : Span) (array index : Term) (left right : String) :
    Strict (.arrayGet note array index) [array, index] (.arrayGet left right)
  | arraySet (note : Span) (array index value : Term) (left right stored : String) :
    Strict (.arraySet note array index value) [array, index, value] (.arraySet left right stored)
  | some (note : Span) (element : Term) (name : String) :
    Strict (.some note element) [element] (.some name)
  | none (note : Span) : Strict (.none note) [] .none

inductive Loads (source : String) : Nat → List Symbol → Code → Prop
  | nil (index : Nat) : Loads source index [] []
  | cons {index id : Nat} {span : Span} {symbol : Symbol} {symbols : List Symbol} {loads : Code}
    (rest : Loads source (index + 1) symbols loads) :
    Loads source index (symbol :: symbols) (⟨id, symbol.name, span, .op (.field source index)⟩ :: loads)

inductive Codes (label : Nat → String) : Term → Code → Value Block → Prop
  | strict {whole : Term} {parts : List Term} {op : Op} {runs : List Run} (shape : Strict whole parts op)
    (each : List.Forall₂ (fun part run => Codes label part run.front run.last.value) parts runs)
    (operands : op.operands = runs.map Run.name) :
    Codes label whole (runs.flatMap Run.all) (.op op)
  | bound {note : Span} {ref : Reference} {symbol : Symbol} (target : ref.target = .bound symbol)
    (labelled : label symbol.number = symbol.name) :
    Codes label (.var note ref) [] (.op (.ref symbol.name))
  | cond {note : Span} {test yes no : Term} {tested first second : Run} {text text' : String}
    (test_codes : Codes label test tested.front tested.last.value)
    (yes_codes : Codes label yes first.front first.last.value)
    (no_codes : Codes label no second.front second.last.value) :
    Codes label (.cond note test yes no) tested.all
      (.branch tested.name (.mk text first.all) (.mk text' second.all))
  | letIn {note : Span} {binder : Binder Symbol Annotation} {bound body : Term} {given : Run}
    {front : Code} {value : Value Block} (labelled : label binder.name.number = binder.name.name)
    (named : given.name = binder.name.name)
    (bound_codes : Codes label bound given.front given.last.value)
    (body_codes : Codes label body front value) :
    Codes label (.letIn note binder bound body) (given.all ++ front) value
  | letRec {note : Span} {name : Symbol} {params : List (Binder Symbol Annotation)}
    {result : Option Annotation} {body rest : Term} {inner : Run} {front : Code} {value : Value Block}
    {id : Nat} {span : Span} {text : String} {names : List String}
    (labelled : ∀ symbol ∈ name :: params.map Binder.name, label symbol.number = symbol.name)
    (named : names = (params.map Binder.name).map Symbol.name)
    (body_codes : Codes label body inner.front inner.last.value)
    (rest_codes : Codes label rest front value) :
    Codes label (.letRec note name params result body rest)
      (⟨id, name.name, span, .function names (.mk text inner.all) false⟩ :: front) value
  | letTuple {note : Span} {binders : List (Binder Symbol Annotation)} {bound body : Term} {source : Run}
    {loads front : Code} {value : Value Block}
    (labelled : ∀ symbol ∈ binders.map Binder.name, label symbol.number = symbol.name)
    (bound_codes : Codes label bound source.front source.last.value)
    (apart : Loads source.name 0 (binders.map Binder.name) loads)
    (body_codes : Codes label body front value) :
    Codes label (.letTuple note binders bound body) (source.all ++ loads ++ front) value
  | apply {note : Span} {callee : Term} {args : List Term} {called : Run} {runs : List Run}
    (callee_codes : Codes label callee called.front called.last.value)
    (each : List.Forall₂ (fun arg run => Codes label arg run.front run.last.value) args runs) :
    Codes label (.apply note callee args) (called.all ++ runs.flatMap Run.all)
      (.op (.call .direct called.name (runs.map Run.name)))
  | matchOption {note : Span} {target someArm noneArm : Term} {binder : Binder Symbol Annotation}
    {source first second : Run} {check content : Nat} {span span' : Span} {test text text' : String}
    (labelled : label binder.name.number = binder.name.name)
    (target_codes : Codes label target source.front source.last.value)
    (some_codes : Codes label someArm first.front first.last.value)
    (none_codes : Codes label noneArm second.front second.last.value) :
    Codes label (.matchOption note target binder someArm noneArm)
      (source.all ++ [⟨check, test, span, .op (.isSome source.name)⟩])
      (.branch test
        (.mk text (⟨content, binder.name.name, span', .op (.unwrap source.name)⟩ :: first.all))
        (.mk text' second.all))
  | typed {note : Span} {child : Term} {hint : Annotation} {front : Code} {value : Value Block}
    (child_codes : Codes label child front value) : Codes label (.typed note child hint) front value

namespace Lower

variable {scope : List Symbol} {expr : TypedExpr}

structure Labelled (label : Nat → String) (count : Nat) (scope : List Symbol) (expr : TypedExpr) : Prop where
  fits : Scoped isFine count scope expr.erase
  shaped : Shaped expr
  around : ∀ symbol ∈ scope, label symbol.number = symbol.name
  within : ∀ bound ∈ expr.names, label bound.symbol.number = bound.symbol.name

section

variable (labelled : Labelled label count scope expr)
include labelled

theorem Labelled.binds :
    ∀ bound ∈ expr.binds, label bound.symbol.number = bound.symbol.name := fun bound mem =>
  labelled.within bound (expr.names_perm.mem_iff.mpr (mem_append_left _ mem))

theorem Labelled.part {bounds : List Bound} {inner : TypedExpr}
    (mem : (bounds, inner) ∈ expr.parts) :
    Labelled label count (bounds.map Bound.symbol ++ scope) inner where
  fits := by
    refine labelled.fits.part _ ?_
    rw [Expr.erase, Expr.parts_map]
    exact mem_map_of_mem mem
  shaped := labelled.shaped.part (mem_map_of_mem mem)
  around symbol there := by
    rcases mem_append.mp there with here | around
    · obtain ⟨bound, own, rfl⟩ := mem_map.mp here
      exact labelled.binds bound (Expr.mem_binds_of_part mem own)
    · exact labelled.around symbol around
  within bound here := labelled.within bound (expr.names_perm.mem_iff.mpr
    (mem_append_right _ (mem_flatMap.mpr ⟨_, mem, here⟩)))

theorem Labelled.inner {inner : TypedExpr}
    (mem : ([], inner) ∈ expr.parts := by simp [Expr.parts]) : Labelled label count scope inner :=
  labelled.part mem

end

def Normalizes (label : Nat → String) (expr : TypedExpr) : Prop :=
  ∀ state, Meets (fun _ => True) (Lower.expr expr) state fun run _ =>
    Codes label expr.erase run.front run.last.value

theorem exprs_normalize {exprs : List TypedExpr} (each : ∀ expr ∈ exprs, Normalizes label expr)
    (state : Lowering) :
    Meets (fun _ => True) (Lower.exprs exprs) state fun (front, names) _ =>
      ∃ runs : List Run, front = runs.flatMap Run.all ∧ names = runs.map Run.name ∧
        Forall₂ (fun part run => Codes label part run.front run.last.value)
          (exprs.map Expr.erase) runs := by
  induction exprs generalizing state with
  | nil => exact .pure ⟨[], rfl, rfl, .nil⟩
  | cons expr exprs ih =>
    rw [Lower.exprs]
    refine .bind (each expr (.head _) state) fun run middle codes => ?_
    refine .bind (ih (fun expr mem => each expr (.tail _ mem)) middle) ?_
    rintro ⟨front, names⟩ _ ⟨runs, rfl, rfl, rest⟩
    exact .pure ⟨run :: runs, rfl, rfl, .cons codes rest⟩

theorem fields_load {types : List Ty} (same_length : types.length = binders.length) (source : String)
    (index : Nat) (state : Lowering) :
    Meets (fun _ => True) (fields source index binders types) state fun loads _ =>
      Loads source index (binders.map fun binder => binder.name.symbol) loads := by
  induction binders generalizing types index state with
  | nil => exact .pure (.nil index)
  | cons _ _ ih =>
    cases types with
    | nil => cases same_length
    | cons _ _ =>
      rw [fields]
      refine setType_then (instruction_then ?_)
      exact .map (ih (Nat.succ.inj same_length) (index + 1) _) fun loads _ rest => .cons rest

theorem rename_keeps (run : Run) (name : String) (state : Lowering) :
    Meets (fun _ => True) (rename run name) state fun renamed _ =>
      renamed = { run with last := { run.last with name } } := by
  refine .get ?_
  dsimp only
  split
  · exact .pure rfl
  · exact .set (.pure rfl)

theorem letIn_normalizes (labelled : Labelled label count scope (.letIn note binder bound body))
    (bound_ih : Normalizes label bound) (body_ih : Normalizes label body) :
    Normalizes label (.letIn note binder bound body) := by
  intro state
  rw [Lower.expr]
  refine .bind (bound_ih state) fun given first bound_codes => ?_
  refine .bind (rename_keeps given _ first) ?_
  rintro _ second rfl
  refine .map (body_ih second) fun _ _ body_codes => ?_
  exact .letIn (labelled.binds _ (by simp [Expr.binds])) rfl bound_codes body_codes

theorem letRec_normalizes {name : Bound} {params : List (Binder Bound Annotation)}
    {result : Option Annotation} {rest : TypedExpr}
    (labelled : Labelled label count scope (.letRec note name params result body rest))
    (body_ih : Normalizes label body) (rest_ih : Normalizes label rest) :
    Normalizes label (.letRec note name params result body rest) := by
  intro state
  have own := labelled.binds
  rw [Lower.expr]
  refine .bind (body_ih state) fun _ _ body_codes => ?_
  refine instruction_then (.bind (rest_ih _) fun _ _ rest_codes => .pure ?_)
  refine .letRec ?_ ?_ body_codes rest_codes
  · simpa [Expr.binds] using own
  · simp

theorem letTuple_normalizes (labelled : Labelled label count scope (.letTuple note binders bound body))
    (bound_ih : Normalizes label bound) (body_ih : Normalizes label body) :
    Normalizes label (.letTuple note binders bound body) := by
  intro state
  have own := labelled.binds
  obtain ⟨types, shape, same_length⟩ :
      ∃ types, bound.type = .tuple types ∧ types.length = binders.length := by
    cases labelled.shaped with
    | node tuple => exact tuple _ _ _ _ rfl
  rw [Lower.expr]
  refine .bind (bound_ih state) fun source first bound_codes => ?_
  rw [shape]
  refine .bind (fields_load same_length source.name 0 first) fun _ second apart => ?_
  refine .map (body_ih second) fun _ _ body_codes => ?_
  refine .letTuple ?_ bound_codes ?_ body_codes
  · simpa [Expr.binds] using own
  · simpa [Function.comp_def] using apart

theorem matchOption_normalizes {target someArm noneArm : TypedExpr}
    (labelled : Labelled label count scope (.matchOption note target binder someArm noneArm))
    (target_ih : Normalizes label target) (some_ih : Normalizes label someArm)
    (none_ih : Normalizes label noneArm) :
    Normalizes label (.matchOption note target binder someArm noneArm) := by
  intro state
  obtain ⟨element, shape⟩ : ∃ element, target.type = .option element := by
    cases labelled.shaped with
    | node _ option => exact option _ _ _ _ _ rfl
  rw [Lower.expr]
  refine .bind (target_ih state) fun _ _ target_codes => ?_
  rw [shape]
  refine temporary_then (setType_then (instruction_then ?_))
  refine .bind (some_ih _) fun _ _ some_codes => ?_
  refine setType_then (instruction_then ?_)
  refine .bind (none_ih _) fun _ _ none_codes => emit_spec ?_
  exact .matchOption (labelled.binds _ (by simp [Expr.binds])) target_codes some_codes none_codes

theorem Operates.strict (operates : Operates whole parts make) (names : List String) :
    Strict whole.erase (parts.map Expr.erase) (make names) := by
  cases operates <;> simp [Expr.erase, Expr.map] <;> constructor

theorem Operates.normalizes (operates : Operates whole parts make)
    (labelled : Labelled label count scope whole)
    (ih : ∀ part ∈ parts, Labelled label count scope part → Normalizes label part) :
    Normalizes label whole := by
  intro state
  rw [operates.expr_eq]
  refine .bind (exprs_normalize (fun part mem =>
    ih part mem (labelled.inner (by simp [operates.parts_eq, mem]))) state) ?_
  rintro ⟨_, _⟩ _ ⟨runs, rfl, rfl, each⟩
  have length : (runs.map Run.name).length = parts.length := by simpa using each.length_eq.symm
  exact emit_spec (.strict (operates.strict _) each (operates.operands length))

theorem expr_normalizes (labelled : Labelled label count scope expr) : Normalizes label expr := by
  induction expr using Expr.induction generalizing scope with
  | var note _ =>
    intro _
    rw [Lower.expr]
    split
    · next symbol target =>
      exact emit_spec (.bound target (labelled.around symbol (labelled.fits.bound rfl target)))
    · next name target => exact emit_spec (.strict (.external note.span target) .nil rfl)
  | cond _ _ _ _ test_ih yes_ih no_ih =>
    intro state
    rw [Lower.expr]
    refine .bind (test_ih labelled.inner state) fun _ first test_codes => ?_
    refine .bind (yes_ih labelled.inner first) fun _ second yes_codes => ?_
    refine .bind (no_ih labelled.inner second) fun _ _ no_codes => ?_
    exact emit_spec (.cond test_codes yes_codes no_codes)
  | letIn _ binder _ body bound_ih body_ih =>
    exact letIn_normalizes labelled (bound_ih labelled.inner)
      (body_ih (labelled.part (by simp [Expr.parts] : ([binder.name], body) ∈ _)))
  | letRec _ name params _ body rest body_ih rest_ih =>
    exact letRec_normalizes labelled
      (body_ih (labelled.part (by simp [Expr.parts] : (params.map Binder.name ++ [name], body) ∈ _)))
      (rest_ih (labelled.part (by simp [Expr.parts] : ([name], rest) ∈ _)))
  | letTuple _ binders _ body bound_ih body_ih =>
    exact letTuple_normalizes labelled (bound_ih labelled.inner)
      (body_ih (labelled.part (by simp [Expr.parts] : (binders.map Binder.name, body) ∈ _)))
  | apply _ _ _ callee_ih args_ih =>
    intro state
    rw [Lower.expr]
    refine .bind (callee_ih labelled.inner state) fun _ middle codes => ?_
    refine .bind (exprs_normalize (fun arg mem =>
      args_ih arg mem (labelled.inner (by simp [Expr.parts, mem]))) middle) ?_
    rintro ⟨_, _⟩ _ ⟨_, rfl, rfl, each⟩
    refine emit_spec ?_
    rw [Expr.erase, Expr.map, Expr.mapAll_eq]
    exact .apply codes each
  | matchOption _ _ binder someArm _ target_ih some_ih none_ih =>
    exact matchOption_normalizes labelled (target_ih labelled.inner)
      (some_ih (labelled.part (by simp [Expr.parts] : ([binder.name], someArm) ∈ _)))
      (none_ih labelled.inner)
  | typed _ _ _ ih =>
    intro state
    rw [Lower.expr]
    exact (ih labelled.inner state).weaken fun _ _ codes => .typed codes
  | _ => exact Operates.normalizes (by constructor) labelled (by grind)

end Lower

/-- The names of some binders by their numbers. -/
def labelOf (symbols : List Symbol) (n : Nat) : String :=
  ((symbols.find? fun symbol => symbol.number == n).map Symbol.name).getD ""

theorem labelOf_number {symbols : List Symbol} (distinct : (symbols.map Symbol.number).Nodup)
    {symbol : Symbol} (mem : symbol ∈ symbols) : labelOf symbols symbol.number = symbol.name := by
  rw [labelOf]
  cases found : symbols.find? fun other => other.number == symbol.number with
  | none => simpa using find?_eq_none.mp found symbol mem
  | some other =>
    have same : other.number = symbol.number := by simpa using find?_some found
    rw [inj_on_of_nodup_map distinct (mem_of_find?_eq_some found) mem same]
    rfl

namespace Resolved

variable {program : Resolved} {settings : Settings} {typed : Typed}

theorem erase_check {fine : String → Prop} (placed : program.WellScoped fine)
    (checks : program.check settings = .ok typed) : typed.body.erase = program.body := by
  obtain ⟨_, _, _, spec⟩ := (check_spec placed settings).of_eq checks
  rw [spec.body, Expr.erase_close, spec.complete.erased]

theorem labelled_check (placed : program.WellScoped isFine) (checks : program.check settings = .ok typed) :
    Lower.Labelled (labelOf program.body.names) program.aliases.length [] typed.body := by
  obtain ⟨inferred, state, _, spec⟩ := (check_spec placed settings).of_eq checks
  have erased := erase_check placed checks
  have shaped : Shaped typed.body := by
    rw [spec.body]
    exact spec.complete.derives.shaped (state.defaulted_settle inferred).keeps
  refine ⟨erased ▸ placed.body, shaped, nofun, fun _ mem => labelOf_number placed.distinct ?_⟩
  have same : typed.body.erase.names.Perm (typed.body.names.map Bound.symbol) :=
    Expr.names_map_perm _ _ _ _ _
  rw [← erased]
  exact same.mem_iff.mpr (mem_map_of_mem mem)

end Resolved

theorem Typed.lower_codes {program : Typed} (labelled : Lower.Labelled label count [] program.body)
    {module : Module} (lowered : program.lower = .ok module) :
    ∃ run : Run, module.entry = .mk "program" run.all ∧
      Codes label program.body.erase run.front run.last.value := by
  have codes : Yields (fun _ => True) program.lower fun module =>
      ∃ run : Run, module.entry = .mk "program" run.all ∧
        Codes label program.body.erase run.front run.last.value :=
    .bind (Lower.expr_normalizes labelled { table := program.table })
      fun (run, _) codes => .pure ⟨run, rfl, codes⟩
  exact codes.of_eq lowered

end MiddleEnd
