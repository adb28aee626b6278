import MiddleEnd.Typing.Infer

/-! Final types. Variables about which nothing is known become unit where their value cannot be
observed; anywhere else they are an error. -/

namespace MiddleEnd

def Store.defaultResult (store : Store) (external : External) : Store :=
  match store.resolve external.type with
  | .function _ result =>
    match store.resolve result with
    | .var number => store.defaultVariable number
    | _ => store
  | _ => store

namespace Inference

/-- Elements of empty literals, discarded values and results of externals default to unit. -/
def settle (state : Inference) (body : TypedExpr) : Store :=
  let discarded := body.names.filter (fun bound => bound.symbol.isWildcard)
  let store := state.empties.foldl Store.defaultVariable state.store
  let store := discarded.foldl (fun store bound => store.defaultToUnit bound.type) store
  state.externals.entries.foldl (fun store entry => store.defaultResult entry.2) store

end Inference

namespace Close

def type (store : Store) (what : String) (type : Ty) (span : Span) : Except Stop Ty :=
  match store.close? type with
  | some closed => return closed
  | none => throw (.rejected { problem := .cannotInfer what (store.display type), span })

def note (store : Store) (note : Note) : Except Stop Note :=
  return { note with type := ← type store "this expression" note.type note.span }

def bound (store : Store) (bound : Bound) : Except Stop Bound :=
  return { bound with
    type := ← type store ("'" ++ bound.symbol.display ++ "'") bound.type bound.symbol.span }

def binder (store : Store) (binder : Binder Bound Annotation) :
    Except Stop (Binder Bound Annotation) :=
  return { binder with name := ← bound store binder.name }

def binders (store : Store) : List (Binder Bound Annotation) →
    Except Stop (List (Binder Bound Annotation))
  | [] => return []
  | first :: rest => do
    let first ← binder store first
    return first :: (← binders store rest)

def instanceType (store : Store) (type : Ty) : Except Stop Ty :=
  match store.close? type with
  | some closed => return closed
  | none => throw (.fault (.openInstance type))

def mapping (store : Store) : List (Nat × Ty) → Except Stop (List (Nat × Ty))
  | [] => return []
  | (number, type) :: rest => do
    let type ← instanceType store type
    return (number, type) :: (← mapping store rest)

def instantiation (store : Store) (made : Instantiation) : Except Stop Instantiation := do
  let mapping ← mapping store made.mapping
  let type ← instanceType store made.type
  let scheme ← instanceType store made.scheme
  return { made with mapping, type, scheme }

def use (store : Store) (use : Use) : Except Stop Use :=
  match use.instantiation with
  | none => return use
  | some made => return { use with instantiation := some (← instantiation store made) }

mutual
/-- Parts are closed before the whole, so the first part without a final type is reported. -/
def expr (store : Store) : TypedExpr → Except Stop TypedExpr
  | .lit here value => return .lit (← note store here) value
  | .var here ref => do
    let here ← note store here
    return .var here (← use store ref)
  | .unary here op operand => do
    let operand ← expr store operand
    return .unary (← note store here) op operand
  | .binary here op lhs rhs => do
    let lhs ← expr store lhs
    let rhs ← expr store rhs
    return .binary (← note store here) op lhs rhs
  | .cond here test yes no => do
    let test ← expr store test
    let yes ← expr store yes
    let no ← expr store no
    return .cond (← note store here) test yes no
  | .letIn here name bound body => do
    let bound ← expr store bound
    let name ← binder store name
    let body ← expr store body
    return .letIn (← note store here) name bound body
  | .letRec here name params result body rest => do
    let params ← binders store params
    let body ← expr store body
    let name ← bound store name
    let rest ← expr store rest
    return .letRec (← note store here) name params result body rest
  | .letTuple here names bound body => do
    let bound ← expr store bound
    let names ← binders store names
    let body ← expr store body
    return .letTuple (← note store here) names bound body
  | .apply here callee args => do
    let callee ← expr store callee
    let args ← exprs store args
    return .apply (← note store here) callee args
  | .tuple here elements => do
    let elements ← exprs store elements
    return .tuple (← note store here) elements
  | .arrayMake here size element => do
    let size ← expr store size
    let element ← expr store element
    return .arrayMake (← note store here) size element
  | .arrayLit here elements => do
    let elements ← exprs store elements
    return .arrayLit (← note store here) elements
  | .arrayLen here array => do
    let array ← expr store array
    return .arrayLen (← note store here) array
  | .arrayGet here array index => do
    let array ← expr store array
    let index ← expr store index
    return .arrayGet (← note store here) array index
  | .arraySet here array index value => do
    let array ← expr store array
    let index ← expr store index
    let value ← expr store value
    return .arraySet (← note store here) array index value
  | .some here element => do
    let element ← expr store element
    return .some (← note store here) element
  | .none here => return .none (← note store here)
  | .matchOption here target name someArm noneArm => do
    let target ← expr store target
    let name ← binder store name
    let someArm ← expr store someArm
    let noneArm ← expr store noneArm
    return .matchOption (← note store here) target name someArm noneArm
  | .typed here child hint => do
    let child ← expr store child
    return .typed (← note store here) child hint
def exprs (store : Store) : List TypedExpr → Except Stop (List TypedExpr)
  | [] => return []
  | first :: rest => do
    let first ← expr store first
    return first :: (← exprs store rest)
end

def declared (program : Resolved) (name : String) : Span :=
  ((program.externals.find? (fun entry => entry.name.name == name)).map Declaration.span).getD
    default

def externals (store : Store) (program : Resolved) :
    List (String × External) → Except Stop (List (String × External))
  | [] => return []
  | (name, external) :: rest => do
    let type ← type store ("external '" ++ name ++ "'") external.type (declared program name)
    return (name, { external with type }) :: (← externals store program rest)

end Close

end MiddleEnd
