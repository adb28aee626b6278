import MiddleEnd.Proofs.Typing.Rules

/-! Typings of programs. The rules say which types an expression may have, with polymorphic bindings,
and nothing about how types are found. Placeholders stand for the type variables. -/

namespace MiddleEnd

namespace Poly

def pick (poly : Poly) (choice : Nat → Ty) (n : Nat) : Ty :=
  if n ∈ poly.quantified then choice n else .generic n

def Instance (poly : Poly) (type : Ty) : Prop :=
  ∃ choice, type = poly.type.substGenerics (poly.pick choice)

def Free (poly : Poly) (n : Nat) : Prop :=
  n ∈ poly.type.generics ∧ n ∉ poly.quantified

instance (poly : Poly) (n : Nat) : Decidable (poly.Free n) :=
  inferInstanceAs (Decidable (n ∈ poly.type.generics ∧ n ∉ poly.quantified))

end Poly

structure Generalizes (globals : Globals) (assumptions : Assumptions) (quantified : List Nat) : Prop where
  locals : ∀ n ∈ quantified, ∀ entry ∈ assumptions, ¬ entry.2.Free n
  externals : ∀ n ∈ quantified, ∀ name type, globals.externals name = some type →
    n ∉ type.generics
  aliases : ∀ n ∈ quantified, ∀ type ∈ globals.aliases, n ∉ type.generics

/-- The types that an expression may have. -/
inductive Typing (globals : Globals) : Assumptions → Expr Symbol Reference Annotation Span → Ty → Prop where
  | lit {assumptions : Assumptions} {span : Span} {value : Literal} :
      Typing globals assumptions (.lit span value) value.ty
  | external {assumptions : Assumptions} {span : Span} {ref : Reference} {name : String} {type : Ty}
      (target : ref.target = .external name) (declared : globals.externals name = some type) :
      Typing globals assumptions (.var span ref) type
  | bound {assumptions : Assumptions} {span : Span} {ref : Reference} {symbol : Symbol} {poly : Poly}
      {type : Ty} (target : ref.target = .bound symbol)
      (declared : assumptions.lookup symbol.number = some poly) (taken : poly.Instance type) :
      Typing globals assumptions (.var span ref) type
  | unary {assumptions : Assumptions} {span : Span} {op : UnaryOp}
      {operand : Expr Symbol Reference Annotation Span} (typed : Typing globals assumptions operand op.operand) :
      Typing globals assumptions (.unary span op operand) op.operand
  | binary {assumptions : Assumptions} {span : Span} {op : BinaryOp}
      {lhs rhs : Expr Symbol Reference Annotation Span} {type : Ty} (known : op.operand? = some type)
      (lhs_typed : Typing globals assumptions lhs type) (rhs_typed : Typing globals assumptions rhs type) :
      Typing globals assumptions (.binary span op lhs rhs) type
  | compare {assumptions : Assumptions} {span : Span} {op : BinaryOp}
      {lhs rhs : Expr Symbol Reference Annotation Span} {type : Ty} (unknown : op.operand? = none)
      (lhs_typed : Typing globals assumptions lhs type) (rhs_typed : Typing globals assumptions rhs type) :
      Typing globals assumptions (.binary span op lhs rhs) .bool
  | cond {assumptions : Assumptions} {span : Span} {test yes no : Expr Symbol Reference Annotation Span}
      {type : Ty} (test_typed : Typing globals assumptions test .bool)
      (yes_typed : Typing globals assumptions yes type) (no_typed : Typing globals assumptions no type) :
      Typing globals assumptions (.cond span test yes no) type
  | letIn {assumptions : Assumptions} {span : Span} {binder : Binder Symbol Annotation}
      {bound body : Expr Symbol Reference Annotation Span} {poly : Poly} {type : Ty}
      (bound_typed : Typing globals assumptions bound poly.type)
      (hinted : globals.Describes binder.hint poly.type)
      (generalizes : Generalizes globals assumptions poly.quantified)
      (body_typed : Typing globals ((binder.name.number, poly) :: assumptions) body type) :
      Typing globals assumptions (.letIn span binder bound body) type
  | letRec {assumptions : Assumptions} {span : Span} {name : Symbol}
      {params : List (Binder Symbol Annotation)} {result : Option Annotation}
      {body rest : Expr Symbol Reference Annotation Span} {types : List Ty} {returned type : Ty}
      {quantified : List Nat} (lengths : types.length = params.length)
      (params_hinted : ∀ pair ∈ params.zip types, globals.Describes pair.1.hint pair.2)
      (result_hinted : globals.Describes result returned)
      (body_typed : Typing globals ((name.number, ⟨.function types returned, []⟩) :: assumptions.bindAll
        ((params.zip types).map fun pair => (pair.1.name, ⟨pair.2, []⟩))) body returned)
      (generalizes : Generalizes globals assumptions quantified)
      (rest_typed : Typing globals ((name.number, ⟨.function types returned, quantified⟩) :: assumptions)
        rest type) :
      Typing globals assumptions (.letRec span name params result body rest) type
  | letTuple {assumptions : Assumptions} {span : Span} {binders : List (Binder Symbol Annotation)}
      {bound body : Expr Symbol Reference Annotation Span} {polys : List Poly} {type : Ty}
      (bound_typed : Typing globals assumptions bound (.tuple (polys.map Poly.type)))
      (lengths : polys.length = binders.length)
      (hinted : ∀ pair ∈ binders.zip polys, globals.Describes pair.1.hint pair.2.type)
      (generalizes : ∀ poly ∈ polys, Generalizes globals assumptions poly.quantified)
      (body_typed : Typing globals (assumptions.bindAll
        ((binders.zip polys).map fun pair => (pair.1.name, pair.2))) body type) :
      Typing globals assumptions (.letTuple span binders bound body) type
  | apply {assumptions : Assumptions} {span : Span} {callee : Expr Symbol Reference Annotation Span}
      {args : List (Expr Symbol Reference Annotation Span)} {types : List Ty} {type : Ty}
      (callee_typed : Typing globals assumptions callee (.function types type))
      (lengths : types.length = args.length)
      (args_typed : ∀ pair ∈ args.zip types, Typing globals assumptions pair.1 pair.2) :
      Typing globals assumptions (.apply span callee args) type
  | tuple {assumptions : Assumptions} {span : Span} {elements : List (Expr Symbol Reference Annotation Span)}
      {types : List Ty} (lengths : types.length = elements.length)
      (typed : ∀ pair ∈ elements.zip types, Typing globals assumptions pair.1 pair.2) :
      Typing globals assumptions (.tuple span elements) (.tuple types)
  | arrayMake {assumptions : Assumptions} {span : Span}
      {size element : Expr Symbol Reference Annotation Span} {type : Ty}
      (size_typed : Typing globals assumptions size .int)
      (element_typed : Typing globals assumptions element type) :
      Typing globals assumptions (.arrayMake span size element) (.array type)
  | arrayLit {assumptions : Assumptions} {span : Span}
      {elements : List (Expr Symbol Reference Annotation Span)} {type : Ty}
      (typed : ∀ element ∈ elements, Typing globals assumptions element type) :
      Typing globals assumptions (.arrayLit span elements) (.array type)
  | arrayLen {assumptions : Assumptions} {span : Span} {array : Expr Symbol Reference Annotation Span}
      {type : Ty} (typed : Typing globals assumptions array (.array type)) :
      Typing globals assumptions (.arrayLen span array) .int
  | arrayGet {assumptions : Assumptions} {span : Span} {array index : Expr Symbol Reference Annotation Span}
      {type : Ty} (array_typed : Typing globals assumptions array (.array type))
      (index_typed : Typing globals assumptions index .int) :
      Typing globals assumptions (.arrayGet span array index) type
  | arraySet {assumptions : Assumptions} {span : Span}
      {array index value : Expr Symbol Reference Annotation Span} {type : Ty}
      (array_typed : Typing globals assumptions array (.array type))
      (index_typed : Typing globals assumptions index .int)
      (value_typed : Typing globals assumptions value type) :
      Typing globals assumptions (.arraySet span array index value) .unit
  | some {assumptions : Assumptions} {span : Span} {element : Expr Symbol Reference Annotation Span}
      {type : Ty} (typed : Typing globals assumptions element type) :
      Typing globals assumptions (.some span element) (.option type)
  | none {assumptions : Assumptions} {span : Span} {type : Ty} :
      Typing globals assumptions (.none span) (.option type)
  | matchOption {assumptions : Assumptions} {span : Span} {binder : Binder Symbol Annotation}
      {target someArm noneArm : Expr Symbol Reference Annotation Span} {element type : Ty}
      (target_typed : Typing globals assumptions target (.option element))
      (hinted : globals.Describes binder.hint element)
      (some_typed : Typing globals ((binder.name.number, ⟨element, []⟩) :: assumptions) someArm type)
      (none_typed : Typing globals assumptions noneArm type) :
      Typing globals assumptions (.matchOption span target binder someArm noneArm) type
  | typed {assumptions : Assumptions} {span : Span} {child : Expr Symbol Reference Annotation Span}
      {hint : Annotation} {type : Ty} (child_typed : Typing globals assumptions child type)
      (hinted : globals.Describes (.some hint) type) :
      Typing globals assumptions (.typed span child hint) type

/-- A typing of a whole program. An alias may have holes, which stand for the same types at all its uses;
an external that is declared nowhere may have any type. -/
structure Resolved.Typing (program : Resolved) (settings : Settings) (globals : Globals) (type : Ty) :
    Prop where
  length_eq : globals.aliases.length = program.aliases.length
  aliased {index : Nat} {entry : Alias Annotation} (here : program.aliases[index]? = some entry) :
    ∃ type, globals.aliases[index]? = some type ∧ Describes globals.aliases entry.type type
  declared : ∀ entry ∈ program.externals, ∃ type, globals.externals entry.name.name = some type ∧
    Describes globals.aliases entry.type type
  builtin (seeded : settings.seedBuiltins = true) : ∀ entry ∈ builtinExternals.entries,
    entry.1 ∉ program.externals.map (fun declaration => declaration.name.name) →
      globals.externals entry.1 = some entry.2.type
  body : MiddleEnd.Typing globals [] program.body type

end MiddleEnd
