import MiddleEnd.Proofs.Typing.Derives
import MiddleEnd.Typing.Comparison

/-! The typing rules on final types. A binding has one type; the placeholders that it quantifies may
be replaced at its uses, and they stand in no type around the binding. -/

namespace MiddleEnd

variable {type : Ty}

structure Poly where
  type : Ty
  quantified : List Nat := []

/-- What is known in the whole program: the types of the externals and of the aliases. -/
structure Globals where
  externals : String → Option Ty
  aliases : List Ty

abbrev Assumptions := List (Nat × Poly)

def Assumptions.bindAll (assumptions : Assumptions) (binders : List (Symbol × Poly)) : Assumptions :=
  binders.foldl (fun assumptions binder => (binder.1.number, binder.2) :: assumptions) assumptions

structure Quantifies (globals : Globals) (assumptions : Assumptions) (poly : Poly) : Prop where
  occurs : ∀ n ∈ poly.quantified, n ∈ poly.type.generics
  locals : ∀ n ∈ poly.quantified, ∀ entry ∈ assumptions, n ∉ entry.2.type.generics
  externals : ∀ n ∈ poly.quantified, ∀ name type, globals.externals name = some type →
    n ∉ type.generics
  aliases : ∀ n ∈ poly.quantified, ∀ type ∈ globals.aliases, n ∉ type.generics

def Globals.Describes (globals : Globals) (hint : Option Annotation) (type : Ty) : Prop :=
  ∀ here ∈ hint, MiddleEnd.Describes globals.aliases here type

inductive Refers (globals : Globals) (assumptions : Assumptions) (use : Use) (type : Ty) : Prop where
  | external {name : String} (target : use.target = .external name)
      (declared : globals.externals name = some type) (taken : use.instantiation = none) :
      Refers globals assumptions use type
  | whole {symbol : Symbol} {poly : Poly} (target : use.target = .bound symbol)
      (declared : assumptions.lookup symbol.number = some poly) (simple : poly.quantified = [])
      (same : type = poly.type) (taken : use.instantiation = none) :
      Refers globals assumptions use type
  | copy {symbol : Symbol} {poly : Poly} {made : Instantiation} (target : use.target = .bound symbol)
      (declared : assumptions.lookup symbol.number = some poly)
      (taken : use.instantiation = some made) (scheme : made.scheme = poly.type)
      (keys : ∀ n, n ∈ made.mapping.map Prod.fst ↔ n ∈ poly.quantified)
      (distinct : (made.mapping.map Prod.fst).Nodup) (made_type : made.type = type)
      (same : type = poly.type.substGenerics
        fun n => (made.mapping.lookup n).getD (.generic n)) :
      Refers globals assumptions use type

inductive Ty.Discrete : Ty → Prop where
  | prim (primitive : Primitive) : Discrete (.prim primitive)
  | tuple {elements : List Ty} (each : ∀ element ∈ elements, Discrete element) :
      Discrete (.tuple elements)
  | option {element : Ty} (inner : Discrete element) : Discrete (.option element)
  | var (n : Nat) : Discrete (.var n)
  | generic (n : Nat) : Discrete (.generic n)

def BinaryOp.Compares (op : BinaryOp) (type : Ty) : Prop :=
  match op.operatorClass with
  | .ordering => type = .int ∨ type = .float ∨ ∃ n, type = .generic n
  | .equality => type.Discrete
  | _ => True

def Bound.poly (bound : Bound) : Poly := ⟨bound.type, []⟩

inductive WellTyped (globals : Globals) : Assumptions → TypedExpr → Prop where
  | lit {assumptions : Assumptions} {note : Note} {value : Literal} (type_eq : note.type = value.ty) :
      WellTyped globals assumptions (.lit note value)
  | var {assumptions : Assumptions} {note : Note} {use : Use}
      (refers : Refers globals assumptions use note.type) : WellTyped globals assumptions (.var note use)
  | unary {assumptions : Assumptions} {note : Note} {op : UnaryOp} {operand : TypedExpr}
      (typed : WellTyped globals assumptions operand) (same : operand.type = op.operand)
      (type_eq : note.type = op.operand) : WellTyped globals assumptions (.unary note op operand)
  | binary {assumptions : Assumptions} {note : Note} {op : BinaryOp} {lhs rhs : TypedExpr}
      (lhs_typed : WellTyped globals assumptions lhs) (rhs_typed : WellTyped globals assumptions rhs)
      (known : op.operand? = some note.type) (lhs_same : lhs.type = note.type)
      (rhs_same : rhs.type = note.type) : WellTyped globals assumptions (.binary note op lhs rhs)
  | compare {assumptions : Assumptions} {note : Note} {op : BinaryOp} {lhs rhs : TypedExpr}
      (lhs_typed : WellTyped globals assumptions lhs) (rhs_typed : WellTyped globals assumptions rhs)
      (unknown : op.operand? = none) (same : lhs.type = rhs.type) (compares : op.Compares lhs.type)
      (type_eq : note.type = .bool) : WellTyped globals assumptions (.binary note op lhs rhs)
  | cond {assumptions : Assumptions} {note : Note} {test yes no : TypedExpr}
      (test_typed : WellTyped globals assumptions test) (yes_typed : WellTyped globals assumptions yes)
      (no_typed : WellTyped globals assumptions no) (test_same : test.type = .bool)
      (yes_same : yes.type = note.type) (no_same : no.type = note.type) :
      WellTyped globals assumptions (.cond note test yes no)
  | letIn {assumptions : Assumptions} {note : Note} {binder : Binder Bound Annotation}
      {bound body : TypedExpr} {quantified : List Nat} (bound_typed : WellTyped globals assumptions bound)
      (same : binder.name.type = bound.type) (hinted : globals.Describes binder.hint bound.type)
      (quantifies : Quantifies globals assumptions ⟨binder.name.type, quantified⟩)
      (body_typed : WellTyped globals
        ((binder.name.symbol.number, ⟨binder.name.type, quantified⟩) :: assumptions) body)
      (type_eq : note.type = body.type) : WellTyped globals assumptions (.letIn note binder bound body)
  | letRec {assumptions : Assumptions} {note : Note} {name : Bound}
      {params : List (Binder Bound Annotation)} {result : Option Annotation} {body rest : TypedExpr}
      {quantified : List Nat} (params_hinted : ∀ param ∈ params, globals.Describes param.hint param.name.type)
      (result_hinted : globals.Describes result body.type)
      (body_typed : WellTyped globals ((name.symbol.number, name.poly) ::
        assumptions.bindAll (params.map fun param => (param.name.symbol, param.name.poly))) body)
      (same : name.type = Bound.function params body.type)
      (quantifies : Quantifies globals assumptions ⟨name.type, quantified⟩)
      (rest_typed : WellTyped globals ((name.symbol.number, ⟨name.type, quantified⟩) :: assumptions) rest)
      (type_eq : note.type = rest.type) :
      WellTyped globals assumptions (.letRec note name params result body rest)
  | letTuple {assumptions : Assumptions} {note : Note} {binders : List (Binder Bound Annotation)}
      {bound body : TypedExpr} {quantified : List (List Nat)}
      (bound_typed : WellTyped globals assumptions bound)
      (same : bound.type = .tuple (binders.map fun binder => binder.name.type))
      (hinted : ∀ binder ∈ binders, globals.Describes binder.hint binder.name.type)
      (lengths : quantified.length = binders.length)
      (quantifies : ∀ pair ∈ binders.zip quantified,
        Quantifies globals assumptions ⟨pair.1.name.type, pair.2⟩)
      (body_typed : WellTyped globals (assumptions.bindAll
        ((binders.zip quantified).map fun pair => (pair.1.name.symbol, ⟨pair.1.name.type, pair.2⟩))) body)
      (type_eq : note.type = body.type) :
      WellTyped globals assumptions (.letTuple note binders bound body)
  | apply {assumptions : Assumptions} {note : Note} {callee : TypedExpr} {args : List TypedExpr}
      (callee_typed : WellTyped globals assumptions callee)
      (args_typed : ∀ arg ∈ args, WellTyped globals assumptions arg)
      (same : callee.type = .function (args.map Expr.type) note.type) :
      WellTyped globals assumptions (.apply note callee args)
  | tuple {assumptions : Assumptions} {note : Note} {elements : List TypedExpr}
      (typed : ∀ element ∈ elements, WellTyped globals assumptions element)
      (type_eq : note.type = .tuple (elements.map Expr.type)) :
      WellTyped globals assumptions (.tuple note elements)
  | arrayMake {assumptions : Assumptions} {note : Note} {size element : TypedExpr}
      (size_typed : WellTyped globals assumptions size) (size_same : size.type = .int)
      (element_typed : WellTyped globals assumptions element)
      (type_eq : note.type = .array element.type) :
      WellTyped globals assumptions (.arrayMake note size element)
  | arrayLit {assumptions : Assumptions} {note : Note} {type : Ty} {elements : List TypedExpr}
      (typed : ∀ element ∈ elements, WellTyped globals assumptions element)
      (same : ∀ element ∈ elements, element.type = type) (type_eq : note.type = .array type) :
      WellTyped globals assumptions (.arrayLit note elements)
  | arrayLen {assumptions : Assumptions} {note : Note} {type : Ty} {array : TypedExpr}
      (typed : WellTyped globals assumptions array) (same : array.type = .array type)
      (type_eq : note.type = .int) : WellTyped globals assumptions (.arrayLen note array)
  | arrayGet {assumptions : Assumptions} {note : Note} {array index : TypedExpr}
      (array_typed : WellTyped globals assumptions array) (array_same : array.type = .array note.type)
      (index_typed : WellTyped globals assumptions index) (index_same : index.type = .int) :
      WellTyped globals assumptions (.arrayGet note array index)
  | arraySet {assumptions : Assumptions} {note : Note} {array index value : TypedExpr}
      (array_typed : WellTyped globals assumptions array) (array_same : array.type = .array value.type)
      (index_typed : WellTyped globals assumptions index) (index_same : index.type = .int)
      (value_typed : WellTyped globals assumptions value) (type_eq : note.type = .unit) :
      WellTyped globals assumptions (.arraySet note array index value)
  | some {assumptions : Assumptions} {note : Note} {element : TypedExpr}
      (typed : WellTyped globals assumptions element) (type_eq : note.type = .option element.type) :
      WellTyped globals assumptions (.some note element)
  | none {assumptions : Assumptions} {note : Note} {type : Ty} (type_eq : note.type = .option type) :
      WellTyped globals assumptions (.none note)
  | matchOption {assumptions : Assumptions} {note : Note} {binder : Binder Bound Annotation}
      {target someArm noneArm : TypedExpr} (target_typed : WellTyped globals assumptions target)
      (target_same : target.type = .option binder.name.type)
      (hinted : globals.Describes binder.hint binder.name.type)
      (some_typed : WellTyped globals
        ((binder.name.symbol.number, binder.name.poly) :: assumptions) someArm)
      (none_typed : WellTyped globals assumptions noneArm) (some_same : someArm.type = note.type)
      (none_same : noneArm.type = note.type) :
      WellTyped globals assumptions (.matchOption note target binder someArm noneArm)
  | typed {assumptions : Assumptions} {note : Note} {child : TypedExpr} {hint : Annotation}
      (typed : WellTyped globals assumptions child)
      (hinted : globals.Describes (.some hint) child.type) (type_eq : note.type = child.type) :
      WellTyped globals assumptions (.typed note child hint)

/-! ### Comparisons -/

theorem Ty.discrete_of_hasEquality (equality : type.hasEquality = true) : type.Discrete := by
  have anyOf_eq (test : Ty → Bool) (types : List Ty) : anyOf test types = types.any (any test) := by
    induction types with
    | nil => rfl
    | cons _ _ ih => rw [anyOf, List.any_cons, ih]
  rw [hasEquality, Bool.not_eq_true'] at equality
  induction type with
  | prim primitive => exact .prim primitive
  | function _ _ _ _ => simp [any] at equality
  | tuple _ ih =>
    rw [any, anyOf_eq, Bool.or_eq_false_iff, List.any_eq_false] at equality
    exact .tuple fun element mem => ih element mem (by simpa using equality.2 element mem)
  | app con _ ih =>
    rw [any, Bool.or_eq_false_iff] at equality
    cases con with
    | array => simp at equality
    | option => exact .option (ih equality.2)
  | var n => exact .var n
  | generic n => exact .generic n

theorem BinaryOp.compares_of_accepts {op : BinaryOp} (accepts : op.accepts type = true) :
    op.Compares type := by
  unfold BinaryOp.accepts at accepts
  unfold BinaryOp.Compares
  split
  · next ordering =>
    rw [ordering] at accepts
    dsimp only at accepts
    unfold Ty.isOrdered at accepts
    split at accepts
    · exact .inl rfl
    · exact .inr (.inl rfl)
    · next n => exact .inr (.inr ⟨n, rfl⟩)
    · cases accepts
  · next equality =>
    rw [equality] at accepts
    exact Ty.discrete_of_hasEquality accepts
  · trivial

end MiddleEnd
