import MiddleEnd.Ty.Unify
import MiddleEnd.Typing.Basic

/-! Type inference: one walk over the program that gives every expression a type and unifies types
where they must agree. -/

namespace MiddleEnd

/-- What inference has found out so far. `empties` are the variables for the elements of empty
literals and those they were instantiated to. -/
structure Inference where
  store : Store := .empty
  externals : NameMap External := .empty
  empties : List Nat := []

/-- What is in scope: the types of the aliases, and of the binders by number. -/
structure Context where
  aliases : List Ty := []
  locals : List (Nat × Ty) := []

def Context.bind (context : Context) (symbol : Symbol) (type : Ty) : Context :=
  { context with locals := (symbol.number, type) :: context.locals }

abbrev InferM := StateT Inference (Except Stop)

namespace Infer

def fresh (level : Nat) : InferM Ty := do
  let state ← get
  let (store, type) := state.store.fresh level
  set { state with store }
  return type

def freshAll (level : Nat) : Nat → InferM (List Ty)
  | 0 => return []
  | count + 1 => do
    let type ← fresh level
    return type :: (← freshAll level count)

def freshEmpty (level : Nat) : InferM Ty := do
  let state ← get
  let (store, type) := state.store.fresh level
  set { state with store, empties := state.store.size :: state.empties }
  return type

def unify (left right : Ty) (span : Span) : InferM Unit := do
  let state ← get
  match state.store.unify left right with
  | (store, none) => set { state with store }
  | (store, some clash) =>
    match clash.explain store left right with
    | .ok (problem, notes) => throw (.rejected { problem, span, notes })
    | .error cause => throw (.fault cause)

def generalize (level : Nat) (type : Ty) : InferM Ty := do
  let state ← get
  let (store, scheme) := state.store.generalize level type
  set { state with store }
  return scheme

mutual
def annotated (aliases : List Ty) (level : Nat) : Annotation → InferM Ty
  | .hole _ => fresh level
  | .prim _ primitive => return .prim primitive
  | .synonym _ index =>
    match aliases[index]? with
    | some type => return type
    | none => throw (.fault (.missingAlias index))
  | .app _ con element => return .app con (← annotated aliases level element)
  | .tuple _ elements => return .tuple (← annotatedAll aliases level elements)
  | .function _ params result => do
    let params ← annotatedAll aliases level params
    return .function params (← annotated aliases level result)
def annotatedAll (aliases : List Ty) (level : Nat) : List Annotation → InferM (List Ty)
  | [] => return []
  | hint :: hints => do
    let type ← annotated aliases level hint
    return type :: (← annotatedAll aliases level hints)
end

def checkHint (context : Context) (level : Nat) (hint : Option Annotation) (type : Ty)
    (span : Span) : InferM Unit := do
  match hint with
  | none => return
  | some hint => unify (← annotated context.aliases level hint) type span

def externalType (name : String) : InferM Ty := do
  match (← get).externals.find? name with
  | some external => return external.type
  | none =>
    let type ← fresh 0
    modify fun state => { state with externals := state.externals.insert name ⟨type, name⟩ }
    return type

def targetType (context : Context) : Target → InferM Ty
  | .bound symbol =>
    match context.locals.lookup symbol.number with
    | some type => return type
    | none => throw (.fault (.untypedSymbol symbol.name))
  | .external name => externalType name

/-- A fresh copy of a type scheme. The copy of an empty literal's element is one itself. -/
def instantiate (level : Nat) (name : String) (scheme : Ty) : InferM Instantiation := do
  let state ← get
  let (store, type, mapping) := state.store.instantiate level scheme
  let copies := (mapping.filter fun (number, _) => state.empties.contains number).flatMap
    fun (_, copy) => copy.vars
  set { state with store, empties := copies ++ state.empties }
  return ⟨name, scheme, type, sortBy (fun first second => first.1 ≤ second.1) mapping⟩

def use (context : Context) (level : Nat) (ref : Reference) : InferM (Ty × Use) := do
  let type ← targetType context ref.target
  let scheme := (← get).store.resolve type
  if scheme.isPolymorphic then
    let made ← instantiate level ref.target.name scheme
    return (made.type, ⟨ref.target, ref.order, some made⟩)
  else return (scheme, ⟨ref.target, ref.order, none⟩)

def parameters (context : Context) (level : Nat) :
    List (Binder Symbol Annotation) → InferM (List (Binder Bound Annotation))
  | [] => return []
  | param :: params => do
    let type ← fresh level
    checkHint context level param.hint type param.name.span
    return ⟨⟨param.name, type⟩, param.hint⟩ :: (← parameters context level params)

def elements (context : Context) (level : Nat) :
    List (Binder Symbol Annotation) → List Ty → InferM (List (Binder Bound Annotation))
  | binder :: binders, type :: types => do
    checkHint context (level + 1) binder.hint type binder.name.span
    let scheme ← generalize level type
    return ⟨⟨binder.name, scheme⟩, binder.hint⟩ :: (← elements context level binders types)
  | _, _ => return []

end Infer

def Context.bindAll (context : Context) (binders : List (Binder Bound Annotation)) : Context :=
  binders.foldl (fun context binder => context.bind binder.name.symbol binder.name.type) context

def BinaryOp.operand? (op : BinaryOp) : Option Ty :=
  match op.operatorClass with
  | .intArithmetic => some .int
  | .floatArithmetic => some .float
  | .logical => some .bool
  | .ordering | .equality => none

def UnaryOp.operand : UnaryOp → Ty
  | not => .bool
  | negate => .int
  | floatNegate => .float

namespace Infer

mutual
def expr (context : Context) (level : Nat) :
    Expr Symbol Reference Annotation Span → InferM TypedExpr
  | .lit span value => return .lit ⟨span, value.ty⟩ value
  | .var span ref => do
    let (type, use) ← use context level ref
    return .var ⟨span, type⟩ use
  | .unary span op operand => do
    let operand ← expr context level operand
    unify op.operand operand.type operand.span
    return .unary ⟨span, op.operand⟩ op operand
  | .binary span op lhs rhs => do
    let lhs ← expr context level lhs
    let rhs ← expr context level rhs
    match op.operand? with
    | some operand =>
      unify operand lhs.type lhs.span
      unify operand rhs.type rhs.span
      return .binary ⟨span, operand⟩ op lhs rhs
    | none =>
      unify lhs.type rhs.type span
      return .binary ⟨span, .bool⟩ op lhs rhs
  | .cond span test yes no => do
    let test ← expr context level test
    unify .bool test.type test.span
    let yes ← expr context level yes
    let no ← expr context level no
    unify yes.type no.type span
    return .cond ⟨span, yes.type⟩ test yes no
  | .letIn span binder bound body => do
    let bound ← expr context (level + 1) bound
    checkHint context (level + 1) binder.hint bound.type binder.name.span
    let scheme ← generalize level bound.type
    let body ← expr (context.bind binder.name scheme) level body
    return .letIn ⟨span, body.type⟩ ⟨⟨binder.name, scheme⟩, binder.hint⟩ bound body
  | .letRec span name params result body rest => do
    let params ← parameters context (level + 1) params
    let returned ← fresh (level + 1)
    match result with
    | none => pure ()
    | some hint => unify (← annotated context.aliases (level + 1) hint) returned hint.span
    let type := Ty.function (params.map fun param => param.name.type) returned
    let body ← expr ((context.bindAll params).bind name type) (level + 1) body
    unify returned body.type body.span
    let scheme ← generalize level type
    let rest ← expr (context.bind name scheme) level rest
    return .letRec ⟨span, rest.type⟩ ⟨name, scheme⟩ params result body rest
  | .letTuple span binders bound body => do
    let bound ← expr context (level + 1) bound
    let types ← freshAll (level + 1) binders.length
    unify bound.type (.tuple types) bound.span
    let binders ← elements context level binders types
    let body ← expr (context.bindAll binders) level body
    return .letTuple ⟨span, body.type⟩ binders bound body
  | .apply span callee args => do
    let callee ← expr context level callee
    let args ← exprs context level args
    let returned ← fresh level
    unify callee.type (.function (args.map Expr.type) returned) span
    return .apply ⟨span, returned⟩ callee args
  | .tuple span elements => do
    let elements ← exprs context level elements
    return .tuple ⟨span, .tuple (elements.map Expr.type)⟩ elements
  | .arrayMake span size element => do
    let size ← expr context level size
    unify .int size.type size.span
    let element ← expr context level element
    return .arrayMake ⟨span, .array element.type⟩ size element
  | .arrayLit span [] => return .arrayLit ⟨span, .array (← freshEmpty level)⟩ []
  | .arrayLit span (first :: rest) => do
    let first ← expr context level first
    let rest ← alike context level first.type rest
    return .arrayLit ⟨span, .array first.type⟩ (first :: rest)
  | .arrayLen span array => do
    let array ← expr context level array
    unify (.array (← fresh level)) array.type array.span
    return .arrayLen ⟨span, .int⟩ array
  | .arrayGet span array index => do
    let array ← expr context level array
    let element ← fresh level
    unify (.array element) array.type array.span
    let index ← expr context level index
    unify .int index.type index.span
    return .arrayGet ⟨span, element⟩ array index
  | .arraySet span array index value => do
    let array ← expr context level array
    let element ← fresh level
    unify (.array element) array.type array.span
    let index ← expr context level index
    unify .int index.type index.span
    let value ← expr context level value
    unify element value.type value.span
    return .arraySet ⟨span, .unit⟩ array index value
  | .some span element => do
    let element ← expr context level element
    return .some ⟨span, .option element.type⟩ element
  | .none span => return .none ⟨span, .option (← freshEmpty level)⟩
  | .matchOption span target binder someArm noneArm => do
    let target ← expr context level target
    let element ← fresh level
    unify (.option element) target.type target.span
    checkHint context level binder.hint element binder.name.span
    let someArm ← expr (context.bind binder.name element) level someArm
    let noneArm ← expr context level noneArm
    unify someArm.type noneArm.type span
    return .matchOption ⟨span, someArm.type⟩ target ⟨⟨binder.name, element⟩, binder.hint⟩
      someArm noneArm
  | .typed span child hint => do
    let child ← expr context level child
    unify (← annotated context.aliases level hint) child.type span
    return .typed ⟨span, child.type⟩ child hint
def exprs (context : Context) (level : Nat) :
    List (Expr Symbol Reference Annotation Span) → InferM (List TypedExpr)
  | [] => return []
  | first :: rest => do
    let first ← expr context level first
    return first :: (← exprs context level rest)
def alike (context : Context) (level : Nat) (type : Ty) :
    List (Expr Symbol Reference Annotation Span) → InferM (List TypedExpr)
  | [] => return []
  | first :: rest => do
    let first ← expr context level first
    unify type first.type first.span
    return first :: (← alike context level type rest)
end

/-- The types of the aliases. An alias may mention those before it, and a hole in it is one and the
same type at all uses. -/
def aliases (before : List Ty) : List (Alias Annotation) → InferM (List Ty)
  | [] => return before
  | first :: rest => do
    let type ← annotated before 0 first.type
    aliases (before ++ [type]) rest

def declarations (aliases : List Ty) : List (Declaration Annotation) → InferM Unit
  | [] => return
  | first :: rest => do
    let type ← annotated aliases 0 first.type
    modify fun state =>
      { state with externals := state.externals.insert first.name.name ⟨type, first.linkName⟩ }
    declarations aliases rest

def program (program : Resolved) : InferM TypedExpr := do
  let types ← aliases [] program.aliases
  declarations types program.externals
  expr { aliases := types } 0 program.body

end Infer

end MiddleEnd
