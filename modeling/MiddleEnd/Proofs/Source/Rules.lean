import MiddleEnd.Proofs.Source.Eval
import MiddleEnd.Typing.Infer

/-! Typing rules for programs and for the values that they compute. -/

namespace MiddleEnd

abbrev Scheme := (Nat → Ty) → Ty

def Scheme.plain (type : Ty) : Scheme := fun _ => type

abbrev Scope := List (Nat × Scheme)

def Scope.bindAll (scope : Scope) (symbols : List Symbol) (schemes : List Scheme) : Scope :=
  (symbols.zip schemes).foldl (fun scope (symbol, scheme) => (symbol.number, scheme) :: scope) scope

/-- The scope of a function's body: its parameters, and the function itself at its own type. -/
def Scope.function (scope : Scope) (name : Symbol) (params : List Symbol) (types : List Ty)
    (result : Ty) : Scope :=
  (name.number, .plain (.function types result)) :: scope.bindAll params (types.map .plain)

inductive HasType (provides : String → Ty → Prop) (general : Nat → Prop) :
    Scope → Term → Ty → Prop where
  | lit {scope : Scope} {span : Span} {value : Literal} :
      HasType provides general scope (.lit span value) value.ty
  | bound {scope : Scope} {span : Span} {symbol : Symbol} {order : Nat} {scheme : Scheme}
      (found : scope.lookup symbol.number = some scheme) (choice : Nat → Ty) :
      HasType provides general scope (.var span ⟨.bound symbol, order⟩) (scheme choice)
  | external {scope : Scope} {span : Span} {name : String} {order : Nat} {type : Ty}
      (provided : provides name type) :
      HasType provides general scope (.var span ⟨.external name, order⟩) type
  | unary {scope : Scope} {span : Span} {op : UnaryOp} {operand : Term}
      (operand_typed : HasType provides general scope operand op.operand) :
      HasType provides general scope (.unary span op operand) op.operand
  | binary {scope : Scope} {span : Span} {op : BinaryOp} {lhs rhs : Term} {type : Ty}
      (known : op.operand? = some type) (lhs_typed : HasType provides general scope lhs type)
      (rhs_typed : HasType provides general scope rhs type) :
      HasType provides general scope (.binary span op lhs rhs) type
  | compare {scope : Scope} {span : Span} {op : BinaryOp} {lhs rhs : Term} {type : Ty}
      (unknown : op.operand? = none) (lhs_typed : HasType provides general scope lhs type)
      (rhs_typed : HasType provides general scope rhs type) :
      HasType provides general scope (.binary span op lhs rhs) .bool
  | cond {scope : Scope} {span : Span} {test yes no : Term} {type : Ty}
      (test_typed : HasType provides general scope test .bool)
      (yes_typed : HasType provides general scope yes type)
      (no_typed : HasType provides general scope no type) :
      HasType provides general scope (.cond span test yes no) type
  | letIn {scope : Scope} {span : Span} {binder : Binder Symbol Annotation} {bound body : Term}
      {scheme : Scheme} {type : Ty}
      (bound_typed : ∀ choice, HasType provides general scope bound (scheme choice))
      (uses : general binder.name.number ∨ ∀ choice choice', scheme choice = scheme choice')
      (body_typed : HasType provides general ((binder.name.number, scheme) :: scope) body type) :
      HasType provides general scope (.letIn span binder bound body) type
  | letRec {scope : Scope} {span : Span} {name : Symbol} {params : List (Binder Symbol Annotation)}
      {hint : Option Annotation} {body rest : Term} {types : (Nat → Ty) → List Ty} {result : Scheme}
      {type : Ty} (arity : ∀ choice, (types choice).length = params.length)
      (body_typed : ∀ choice, HasType provides general
        (scope.function name (params.map Binder.name) (types choice) (result choice)) body
        (result choice))
      (rest_typed : HasType provides general
        ((name.number, fun choice => .function (types choice) (result choice)) :: scope) rest type) :
      HasType provides general scope (.letRec span name params hint body rest) type
  | letTuple {scope : Scope} {span : Span} {binders : List (Binder Symbol Annotation)}
      {bound body : Term} {elements : List Ty} {schemes : List Scheme}
      {tuples : Nat → (Nat → Ty) → List Ty} {type : Ty}
      (bound_typed : HasType provides general scope bound (.tuple elements))
      (arity : elements.length = binders.length) (schemes_arity : schemes.length = binders.length)
      (parts_typed : ∀ index choice,
        HasType provides general scope bound (.tuple (tuples index choice)))
      (parts : ∀ (index : Nat) scheme choice, schemes[index]? = some scheme →
        (tuples index choice)[index]? = some (scheme choice))
      (uses : ∀ (index : Nat) binder scheme, binders[index]? = some binder →
        schemes[index]? = some scheme → general binder.name.number ∨
          ∀ choice, elements[index]? = some (scheme choice))
      (body_typed : HasType provides general (scope.bindAll (binders.map Binder.name) schemes) body
        type) :
      HasType provides general scope (.letTuple span binders bound body) type
  | apply {scope : Scope} {span : Span} {callee : Term} {args : List Term} {types : List Ty}
      {type : Ty} (callee_typed : HasType provides general scope callee (.function types type))
      (arity : args.length = types.length)
      (args_typed : ∀ pair ∈ args.zip types, HasType provides general scope pair.1 pair.2) :
      HasType provides general scope (.apply span callee args) type
  | tuple {scope : Scope} {span : Span} {elements : List Term} {types : List Ty}
      (arity : elements.length = types.length)
      (elements_typed : ∀ pair ∈ elements.zip types, HasType provides general scope pair.1 pair.2) :
      HasType provides general scope (.tuple span elements) (.tuple types)
  | arrayMake {scope : Scope} {span : Span} {size element : Term} {type : Ty}
      (size_typed : HasType provides general scope size .int)
      (element_typed : HasType provides general scope element type) :
      HasType provides general scope (.arrayMake span size element) (.array type)
  | arrayLit {scope : Scope} {span : Span} {elements : List Term} {type : Ty}
      (elements_typed : ∀ element ∈ elements, HasType provides general scope element type) :
      HasType provides general scope (.arrayLit span elements) (.array type)
  | arrayLen {scope : Scope} {span : Span} {array : Term} {type : Ty}
      (array_typed : HasType provides general scope array (.array type)) :
      HasType provides general scope (.arrayLen span array) .int
  | arrayGet {scope : Scope} {span : Span} {array index : Term} {type : Ty}
      (array_typed : HasType provides general scope array (.array type))
      (index_typed : HasType provides general scope index .int) :
      HasType provides general scope (.arrayGet span array index) type
  | arraySet {scope : Scope} {span : Span} {array index value : Term} {type : Ty}
      (array_typed : HasType provides general scope array (.array type))
      (index_typed : HasType provides general scope index .int)
      (value_typed : HasType provides general scope value type) :
      HasType provides general scope (.arraySet span array index value) .unit
  | some {scope : Scope} {span : Span} {element : Term} {type : Ty}
      (element_typed : HasType provides general scope element type) :
      HasType provides general scope (.some span element) (.option type)
  | none {scope : Scope} {span : Span} {type : Ty} :
      HasType provides general scope (.none span) (.option type)
  | matchOption {scope : Scope} {span : Span} {target : Term} {binder : Binder Symbol Annotation}
      {someArm noneArm : Term} {element type : Ty}
      (target_typed : HasType provides general scope target (.option element))
      (some_typed : HasType provides general ((binder.name.number, .plain element) :: scope) someArm
        type)
      (none_typed : HasType provides general scope noneArm type) :
      HasType provides general scope (.matchOption span target binder someArm noneArm) type
  | typed {scope : Scope} {span : Span} {child : Term} {hint : Annotation} {type : Ty}
      (child_typed : HasType provides general scope child type) :
      HasType provides general scope (.typed span child hint) type

inductive ValTyped (provides : String → Ty → Prop) (general : Nat → Prop) (cells : List Ty) :
    Val → Ty → Prop where
  | lit {value : Literal} : ValTyped provides general cells (.lit value) value.ty
  | tuple {values : List Val} {types : List Ty} (arity : values.length = types.length)
      (elements : ∀ pair ∈ values.zip types, ValTyped provides general cells pair.1 pair.2) :
      ValTyped provides general cells (.tuple values) (.tuple types)
  | array {base size : Nat} {type : Ty}
      (inside : ∀ index < size, cells[base + index]? = some type) :
      ValTyped provides general cells (.array base size) (.array type)
  | some {element : Val} {type : Ty} (content : ValTyped provides general cells element type) :
      ValTyped provides general cells (.some element) (.option type)
  | none {type : Ty} : ValTyped provides general cells .none (.option type)
  | closure {name : Symbol} {params : List Symbol} {body : Term} {env : List (Nat × Val)}
      {scope : Scope} {types : List Ty} {result : Ty} (arity : types.length = params.length)
      (found : ∀ n scheme, scope.lookup n = some scheme → (env.lookup n).isSome)
      (held : ∀ n scheme value, scope.lookup n = some scheme →
        env.lookup n = some value → ∀ choice, ValTyped provides general cells value (scheme choice))
      (body_typed : HasType provides general (scope.function name params types result) body result) :
      ValTyped provides general cells (.closure name params body env) (.function types result)
  | external {name : String} {types : List Ty} {result : Ty}
      (provided : provides name (.function types result)) :
      ValTyped provides general cells (.external name) (.function types result)

section

variable (provides : String → Ty → Prop) (general : Nat → Prop)

structure AllTyped (cells : List Ty) (values : List Val) (types : List Ty) : Prop where
  arity : values.length = types.length
  each : ∀ pair ∈ values.zip types, ValTyped provides general cells pair.1 pair.2

abbrev HeapTyped (cells : List Ty) (heap : List Val) : Prop := AllTyped provides general cells heap cells

structure EnvTyped (cells : List Ty) (scope : Scope) (env : List (Nat × Val)) : Prop where
  found : ∀ n scheme, scope.lookup n = some scheme → (env.lookup n).isSome
  held : ∀ n scheme value, scope.lookup n = some scheme → env.lookup n = some value →
    ∀ choice, ValTyped provides general cells value (scheme choice)

/-- What externals promise: called with arguments of its parameter types, an external gives a value of
its result type and leaves every cell with a value of the cell's type. It may add cells. -/
structure World.Respects (world : World) : Prop where
  value {name : String} {type : Ty} (provided : provides name type) :
    ValTyped provides general [] (world.value name) type
  call {count : Nat} {name : String} {types cells : List Ty} {result : Ty} {args heap heap' : List Val}
    {value : Val} (provided : provides name (.function types result))
    (heap_typed : HeapTyped provides general cells heap) (args_typed : AllTyped provides general cells args types)
    (returns : world.call count name args heap = some (value, heap')) :
    ∃ cells', cells <+: cells' ∧ HeapTyped provides general cells' heap' ∧
      ValTyped provides general cells' value result

end

end MiddleEnd
