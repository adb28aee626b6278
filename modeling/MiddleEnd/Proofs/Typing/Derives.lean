import MiddleEnd.Proofs.Ty.Instance
import MiddleEnd.Proofs.Tree.Parts
import MiddleEnd.Typing.Infer

/-! Typing derivations over the states of inference. A rule compares types by what the store of a
state makes of them, so it stays true in every later state. Where a binding is generalized, the rule
keeps the state of that moment: the types that the binding may be used at are those that its bound
expression had then. -/

namespace MiddleEnd

variable {state : Inference} {ctx : Context} {type : Ty}

theorem Literal.ty_prim (value : Literal) : ∃ primitive, value.ty = .prim primitive := by
  cases value <;> exact ⟨_, rfl⟩

theorem UnaryOp.operand_prim (op : UnaryOp) : ∃ primitive, op.operand = .prim primitive := by
  cases op <;> exact ⟨_, rfl⟩

theorem BinaryOp.operand_prim {op : BinaryOp} (known : op.operand? = some type) :
    ∃ primitive, type = .prim primitive := by
  unfold operand? at known
  split at known <;> cases known <;> exact ⟨_, rfl⟩

def Ty.thaw (scheme : Ty) : Ty := scheme.substGenerics .var

namespace Inference

/-- A later state of inference. -/
structure Extends (state later : Inference) : Prop where
  grows : state.store.Grows later.store
  frozen {n : Nat} (before : state.store.isGeneralized n = true) :
    later.store.isGeneralized n = true
  external {name : String} {external : External}
    (before : state.externals.find? name = some external) :
    later.externals.find? name = some external

theorem Extends.refl (state : Inference) : state.Extends state := ⟨.refl _, id, id⟩

theorem Extends.trans {first second third : Inference} (left : first.Extends second)
    (right : second.Extends third) : first.Extends third :=
  ⟨left.grows.trans right.grows, fun before => right.frozen (left.frozen before),
    fun before => right.external (left.external before)⟩

def Same (state : Inference) (left right : Ty) : Prop :=
  state.store.expand left = state.store.expand right

theorem Same.later {later : Inference} {left right : Ty} (same : state.Same left right)
    (steps : state.Extends later) : later.Same left right :=
  steps.grows.keeps.expand_eq same

end Inference

mutual
def Describes (aliases : List Ty) : Annotation → Ty → Prop
  | .hole _, _ => True
  | .prim _ primitive, type => type = .prim primitive
  | .synonym _ index, type => aliases[index]? = some type
  | .app _ con inner, type => ∃ element, type = .app con element ∧ Describes aliases inner element
  | .tuple _ inner, type => ∃ elements, type = .tuple elements ∧ DescribesAll aliases inner elements
  | .function _ inner last, type =>
    ∃ params result, type = .function params result ∧ DescribesAll aliases inner params ∧
      Describes aliases last result
def DescribesAll (aliases : List Ty) : List Annotation → List Ty → Prop
  | [], [] => True
  | hint :: hints, type :: types => Describes aliases hint type ∧ DescribesAll aliases hints types
  | _, _ => False
end

section

variable {aliases aliases' : List Ty}

mutual
theorem Describes.mono (kept : ∀ (index : Nat) type, aliases[index]? = some type → aliases'[index]? = some type) :
    ∀ {hint : Annotation} {type : Ty}, Describes aliases hint type → Describes aliases' hint type
  | .hole _, _, _ => trivial
  | .prim _ _, _, same => same
  | .synonym _ index, type, found => kept index type found
  | .app _ _ _, _, ⟨element, same, inner⟩ => ⟨element, same, inner.mono kept⟩
  | .tuple _ _, _, ⟨elements, same, inner⟩ => ⟨elements, same, DescribesAll.mono kept inner⟩
  | .function _ _ _, _, ⟨params, result, same, inner, last⟩ =>
    ⟨params, result, same, DescribesAll.mono kept inner, last.mono kept⟩
theorem DescribesAll.mono (kept : ∀ (index : Nat) type, aliases[index]? = some type → aliases'[index]? = some type) :
    ∀ {hints : List Annotation} {types : List Ty}, DescribesAll aliases hints types →
      DescribesAll aliases' hints types
  | [], [], _ => trivial
  | _ :: _, _ :: _, ⟨first, rest⟩ => ⟨first.mono kept, DescribesAll.mono kept rest⟩
end

end

def Hinted (state : Inference) (ctx : Context) (hint : Option Annotation) (type : Ty) : Prop :=
  ∀ here ∈ hint, ∃ described, Describes ctx.aliases here described ∧ state.Same described type

theorem hinted_none : Hinted state ctx none type := by
  simp [Hinted]

theorem Hinted.of_describes {hint : Annotation} {described : Ty}
    (describes : Describes ctx.aliases hint described) (same : state.Same described type) :
    Hinted state ctx (some hint) type := by
  intro _ mem
  obtain rfl := Option.some.inj mem
  exact ⟨described, describes, same⟩

theorem Hinted.later {later : Inference} {hint : Option Annotation}
    (hinted : Hinted state ctx hint type) (steps : state.Extends later) :
    Hinted later ctx hint type := by
  intro here mem
  obtain ⟨described, describes, same⟩ := hinted here mem
  exact ⟨described, describes, same.later steps⟩

/-- What the target of a variable was declared with. -/
def Declares (state : Inference) (ctx : Context) : Target → Ty → Prop
  | .bound symbol, type => ctx.locals.lookup symbol.number = some type
  | .external name, type =>
    ∃ external, state.externals.find? name = some external ∧ external.type = type

theorem Declares.later {later : Inference} {target : Target}
    (declares : Declares state ctx target type) (steps : state.Extends later) :
    Declares later ctx target type := by
  cases target with
  | bound _ => exact declares
  | external _ =>
    obtain ⟨external, found, rfl⟩ := declares
    exact ⟨external, steps.external found, rfl⟩

structure Instantiation.Fits (made : Instantiation) : Prop where
  keys (n : Nat) : n ∈ made.mapping.map Prod.fst ↔ n ∈ made.scheme.generics
  distinct : (made.mapping.map Prod.fst).Nodup
  type_eq : made.type =
    made.scheme.substGenerics (fun n => (made.mapping.lookup n).getD (.generic n))

inductive Uses (state : Inference) (ctx : Context) (use : Use) (type : Ty) : Prop where
  | mono {declared : Ty} (declares : Declares state ctx use.target declared)
      (plain : declared.generics = []) (taken : use.instantiation = none)
      (same : state.Same type declared) : Uses state ctx use type
  | poly {made : Instantiation} (declares : Declares state ctx use.target made.scheme)
      (taken : use.instantiation = some made) (type_eq : made.type = type) (fits : made.Fits) :
      Uses state ctx use type

theorem Uses.later {later : Inference} {use : Use} (uses : Uses state ctx use type)
    (steps : state.Extends later) :
    Uses later ctx use type := by
  cases uses with
  | mono declares plain taken same =>
    exact .mono (declares.later steps) plain taken (same.later steps)
  | poly declares taken type_eq fits => exact .poly (declares.later steps) taken type_eq fits

structure Generalized (middle state : Inference) (ctx : Context) (type scheme : Ty) : Prop where
  steps : middle.Extends state
  thaw : scheme.thaw = middle.store.expand type
  vars : ∀ n ∈ scheme.generics, n ∉ scheme.vars
  locals : ∀ n ∈ scheme.generics, ∀ entry ∈ ctx.locals,
    n ∉ (middle.store.expand entry.2).vars
  externals : ∀ n ∈ scheme.generics, ∀ name external,
    middle.externals.find? name = some external →
      n ∉ (middle.store.expand external.type).vars
  frozen : ∀ n ∈ scheme.generics, state.store.isGeneralized n = true

theorem Generalized.later {middle later : Inference} {scheme : Ty}
    (generalized : Generalized middle state ctx type scheme) (steps : state.Extends later) :
    Generalized middle later ctx type scheme :=
  { generalized with
    steps := generalized.steps.trans steps
    frozen := fun n mem => steps.frozen (generalized.frozen n mem) }

inductive Parted (start state : Inference) (ctx : Context) :
    List (Binder Bound Annotation) → List Ty → Prop where
  | nil : Parted start state ctx [] []
  | cons {middle : Inference} {binder : Binder Bound Annotation} {type : Ty}
      {binders : List (Binder Bound Annotation)} {types : List Ty} (reached : start.Extends middle)
      (hinted : Hinted middle ctx binder.hint type)
      (generalized : Generalized middle state ctx type binder.name.type)
      (rest : Parted start state ctx binders types) :
      Parted start state ctx (binder :: binders) (type :: types)

theorem Parted.later {start later : Inference} {binders : List (Binder Bound Annotation)}
    {types : List Ty} (parted : Parted start state ctx binders types) (steps : state.Extends later) :
    Parted start later ctx binders types := by
  induction parted with
  | nil => exact .nil
  | cons reached hinted generalized _ ih => exact .cons reached hinted (generalized.later steps) ih

def Expr.erase (expr : TypedExpr) : Expr Symbol Reference Annotation Span :=
  expr.map Bound.symbol (fun use => ⟨use.target, use.order⟩) id Note.span

def Binder.erase (binder : Binder Bound Annotation) : Binder Symbol Annotation :=
  ⟨binder.name.symbol, binder.hint⟩

def Bound.function (params : List (Binder Bound Annotation)) (returned : Ty) : Ty :=
  .function (params.map fun param => param.name.type) returned

inductive Derives : Inference → Context → TypedExpr → Prop where
  | lit {state : Inference} {ctx : Context} {span : Span} {value : Literal} :
      Derives state ctx (.lit ⟨span, value.ty⟩ value)
  | var {state : Inference} {ctx : Context} {note : Note} {use : Use}
      (uses : Uses state ctx use note.type) : Derives state ctx (.var note use)
  | unary {state : Inference} {ctx : Context} {span : Span} {op : UnaryOp} {operand : TypedExpr}
      (derives : Derives state ctx operand) (same : state.Same op.operand operand.type) :
      Derives state ctx (.unary ⟨span, op.operand⟩ op operand)
  | binary {state : Inference} {ctx : Context} {span : Span} {op : BinaryOp} {type : Ty}
      {lhs rhs : TypedExpr} (known : op.operand? = some type) (lhs_derives : Derives state ctx lhs)
      (rhs_derives : Derives state ctx rhs) (lhs_same : state.Same type lhs.type)
      (rhs_same : state.Same type rhs.type) : Derives state ctx (.binary ⟨span, type⟩ op lhs rhs)
  | compare {state : Inference} {ctx : Context} {span : Span} {op : BinaryOp}
      {lhs rhs : TypedExpr} (unknown : op.operand? = none) (lhs_derives : Derives state ctx lhs)
      (rhs_derives : Derives state ctx rhs) (same : state.Same lhs.type rhs.type) :
      Derives state ctx (.binary ⟨span, .bool⟩ op lhs rhs)
  | cond {state : Inference} {ctx : Context} {span : Span} {test yes no : TypedExpr}
      (test_derives : Derives state ctx test) (yes_derives : Derives state ctx yes)
      (no_derives : Derives state ctx no) (test_same : state.Same .bool test.type)
      (same : state.Same yes.type no.type) :
      Derives state ctx (.cond ⟨span, yes.type⟩ test yes no)
  | letIn {middle state : Inference} {ctx : Context} {span : Span}
      {binder : Binder Bound Annotation} {bound body : TypedExpr}
      (bound_derives : Derives middle ctx bound)
      (hinted : Hinted middle ctx binder.hint bound.type)
      (generalized : Generalized middle state ctx bound.type binder.name.type)
      (body_derives : Derives state (ctx.bind binder.name.symbol binder.name.type) body) :
      Derives state ctx (.letIn ⟨span, body.type⟩ binder bound body)
  | letRec {middle state : Inference} {ctx : Context} {span : Span} {name : Bound}
      {params : List (Binder Bound Annotation)} {result : Option Annotation}
      {body rest : TypedExpr} {returned : Ty}
      (plain : (Bound.function params returned).generics = [])
      (params_hinted : ∀ param ∈ params, Hinted middle ctx param.hint param.name.type)
      (result_hinted : Hinted middle ctx result body.type)
      (body_derives : Derives middle
        ((ctx.bindAll params).bind name.symbol (Bound.function params returned)) body)
      (same : middle.Same returned body.type)
      (generalized : Generalized middle state ctx (Bound.function params returned) name.type)
      (rest_derives : Derives state (ctx.bind name.symbol name.type) rest) :
      Derives state ctx (.letRec ⟨span, rest.type⟩ name params result body rest)
  | letTuple {middle state : Inference} {ctx : Context} {span : Span}
      {binders : List (Binder Bound Annotation)} {types : List Ty} {bound body : TypedExpr}
      (bound_derives : Derives middle ctx bound)
      (same : middle.Same bound.type (.tuple types))
      (steps : middle.Extends state) (parted : Parted middle state ctx binders types)
      (body_derives : Derives state (ctx.bindAll binders) body) :
      Derives state ctx (.letTuple ⟨span, body.type⟩ binders bound body)
  | apply {state : Inference} {ctx : Context} {note : Note} {callee : TypedExpr}
      {args : List TypedExpr} (callee_derives : Derives state ctx callee)
      (args_derive : ∀ arg ∈ args, Derives state ctx arg)
      (same : state.Same callee.type (.function (args.map Expr.type) note.type)) :
      Derives state ctx (.apply note callee args)
  | tuple {state : Inference} {ctx : Context} {span : Span} {elements : List TypedExpr}
      (derive : ∀ element ∈ elements, Derives state ctx element) :
      Derives state ctx (.tuple ⟨span, .tuple (elements.map Expr.type)⟩ elements)
  | arrayMake {state : Inference} {ctx : Context} {span : Span} {size element : TypedExpr}
      (size_derives : Derives state ctx size) (size_same : state.Same .int size.type)
      (element_derives : Derives state ctx element) :
      Derives state ctx (.arrayMake ⟨span, .array element.type⟩ size element)
  | arrayLit {state : Inference} {ctx : Context} {span : Span} {type : Ty}
      {elements : List TypedExpr} (derive : ∀ element ∈ elements, Derives state ctx element)
      (same : ∀ element ∈ elements, state.Same type element.type) :
      Derives state ctx (.arrayLit ⟨span, .array type⟩ elements)
  | arrayLen {state : Inference} {ctx : Context} {span : Span} {type : Ty} {array : TypedExpr}
      (derives : Derives state ctx array) (same : state.Same (.array type) array.type) :
      Derives state ctx (.arrayLen ⟨span, .int⟩ array)
  | arrayGet {state : Inference} {ctx : Context} {note : Note} {array index : TypedExpr}
      (array_derives : Derives state ctx array)
      (array_same : state.Same (.array note.type) array.type)
      (index_derives : Derives state ctx index) (index_same : state.Same .int index.type) :
      Derives state ctx (.arrayGet note array index)
  | arraySet {state : Inference} {ctx : Context} {span : Span} {type : Ty}
      {array index value : TypedExpr} (array_derives : Derives state ctx array)
      (array_same : state.Same (.array type) array.type)
      (index_derives : Derives state ctx index) (index_same : state.Same .int index.type)
      (value_derives : Derives state ctx value) (value_same : state.Same type value.type) :
      Derives state ctx (.arraySet ⟨span, .unit⟩ array index value)
  | some {state : Inference} {ctx : Context} {span : Span} {element : TypedExpr}
      (derives : Derives state ctx element) :
      Derives state ctx (.some ⟨span, .option element.type⟩ element)
  | none {state : Inference} {ctx : Context} {span : Span} {type : Ty} :
      Derives state ctx (.none ⟨span, .option type⟩)
  | matchOption {state : Inference} {ctx : Context} {span : Span}
      {binder : Binder Bound Annotation} {target someArm noneArm : TypedExpr}
      (target_derives : Derives state ctx target) (plain : binder.name.type.generics = [])
      (target_same : state.Same (.option binder.name.type) target.type)
      (hinted : Hinted state ctx binder.hint binder.name.type)
      (some_derives : Derives state (ctx.bind binder.name.symbol binder.name.type) someArm)
      (none_derives : Derives state ctx noneArm)
      (same : state.Same someArm.type noneArm.type) :
      Derives state ctx (.matchOption ⟨span, someArm.type⟩ target binder someArm noneArm)
  | typed {state : Inference} {ctx : Context} {span : Span} {child : TypedExpr}
      {hint : Annotation} (derives : Derives state ctx child)
      (hinted : Hinted state ctx (.some hint) child.type) :
      Derives state ctx (.typed ⟨span, child.type⟩ child hint)

theorem Derives.later {later : Inference} {expr : TypedExpr} (derives : Derives state ctx expr)
    (steps : state.Extends later) :
    Derives later ctx expr := by
  induction derives generalizing later with
  | lit => exact .lit
  | var uses => exact .var (uses.later steps)
  | unary _ same ih => exact .unary (ih steps) (same.later steps)
  | binary known _ _ lhs_same rhs_same lhs_ih rhs_ih =>
    exact .binary known (lhs_ih steps) (rhs_ih steps) (lhs_same.later steps) (rhs_same.later steps)
  | compare unknown _ _ same lhs_ih rhs_ih =>
    exact .compare unknown (lhs_ih steps) (rhs_ih steps) (same.later steps)
  | cond _ _ _ test_same same test_ih yes_ih no_ih =>
    exact .cond (test_ih steps) (yes_ih steps) (no_ih steps) (test_same.later steps) (same.later steps)
  | letIn bound hinted generalized _ _ body_ih =>
    exact .letIn bound hinted (generalized.later steps) (body_ih steps)
  | letRec plain params_hinted result_hinted body same generalized _ _ rest_ih =>
    exact .letRec plain params_hinted result_hinted body same (generalized.later steps) (rest_ih steps)
  | letTuple bound same reached parted _ _ body_ih =>
    exact .letTuple bound same (reached.trans steps) (parted.later steps) (body_ih steps)
  | apply _ _ same callee_ih args_ih =>
    exact .apply (callee_ih steps) (fun arg mem => args_ih arg mem steps) (same.later steps)
  | tuple _ ih => exact .tuple fun element mem => ih element mem steps
  | arrayMake _ size_same _ size_ih element_ih =>
    exact .arrayMake (size_ih steps) (size_same.later steps) (element_ih steps)
  | arrayLit _ same ih =>
    exact .arrayLit (fun element mem => ih element mem steps)
      (fun element mem => (same element mem).later steps)
  | arrayLen _ same ih => exact .arrayLen (ih steps) (same.later steps)
  | arrayGet _ array_same _ index_same array_ih index_ih =>
    exact .arrayGet (array_ih steps) (array_same.later steps) (index_ih steps) (index_same.later steps)
  | arraySet _ array_same _ index_same _ value_same array_ih index_ih value_ih =>
    exact .arraySet (array_ih steps) (array_same.later steps) (index_ih steps)
      (index_same.later steps) (value_ih steps) (value_same.later steps)
  | some _ ih => exact .some (ih steps)
  | none => exact .none
  | matchOption _ plain target_same hinted _ _ same target_ih some_ih none_ih =>
    exact .matchOption (target_ih steps) plain (target_same.later steps) (hinted.later steps)
      (some_ih steps) (none_ih steps) (same.later steps)
  | typed _ hinted ih => exact .typed (ih steps) (hinted.later steps)

end MiddleEnd
