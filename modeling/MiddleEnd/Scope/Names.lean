import MiddleEnd.Fault
import MiddleEnd.Scope.Resolve

/-! What resolution finds, kept in tables. A pass over the program enters the meaning of each name under
the number of its identifier, and later passes look it up there. -/

namespace MiddleEnd

/-- The meaning of a variable: a binder by its number, or a name from outside. -/
inductive ValueName where
  | bound (number : Nat)
  | external (name : String)

structure Names where
  symbols : Array Symbol := #[]
  /-- The binders by their identifiers. -/
  bindings : List (Nat × Nat) := []
  values : List (Nat × ValueName) := []
  types : List (Nat × TypeName) := []

namespace Names

def addSymbol (names : Names) (ident : Ident) : Names :=
  { names with
    symbols := names.symbols.push ⟨names.symbols.size, ident.name, ident.span⟩
    bindings := (ident.id, names.symbols.size) :: names.bindings }

def addValue (names : Names) (ident : Ident) (value : ValueName) : Names :=
  { names with values := (ident.id, value) :: names.values }

def addType (names : Names) (ident : Ident) (type : TypeName) : Names :=
  { names with types := (ident.id, type) :: names.types }

/-! ### Looking up -/

def symbol (names : Names) (number : Nat) : Except Fault Symbol :=
  match names.symbols[number]? with
  | some symbol => return symbol
  | none => throw (.missingSymbol number)

def binding (names : Names) (ident : Ident) : Except Fault Symbol :=
  match names.bindings.lookup ident.id with
  | some number => names.symbol number
  | none => throw (.unboundBinder ident.name ident.id)

def target (names : Names) (ident : Ident) : Except Fault Target :=
  match names.values.lookup ident.id with
  | some (.bound number) => return .bound (← names.symbol number)
  | some (.external name) => return .external name
  | none => throw (.unresolvedName ident.name ident.id)

def typeName (names : Names) (ident : Ident) : Except Fault TypeName :=
  match names.types.lookup ident.id with
  | some type => return type
  | none => throw (.unresolvedType ident.name)

mutual
def readType (names : Names) : TypeExpr → Except Fault Annotation
  | .hole span => return .hole span
  | .named span name => do
    match ← names.typeName name with
    | .prim primitive => return .prim span primitive
    | .synonym index => return .synonym span index
    | .con _ => throw (.bareConstructor name.name)
  | .applied _ name [] => throw (.missingArgument name.name)
  | .applied span name (element :: _) => do
    let element ← readType names element
    match ← names.typeName name with
    | .con constructor => return .app span constructor element
    | _ => throw (.notConstructor name.name)
  | .tuple span elements => return .tuple span (← readTypes names elements)
  | .function span params result => do
    let params ← readTypes names params
    return .function span params (← readType names result)
def readTypes (names : Names) : List TypeExpr → Except Fault (List Annotation)
  | [] => return []
  | type :: types => do
    let type ← readType names type
    return type :: (← readTypes names types)
end

def readHint (names : Names) : Option TypeExpr → Except Fault (Option Annotation)
  | none => return none
  | some type => return some (← names.readType type)

def readBinder (names : Names) (binder : Binder Ident TypeExpr) :
    Except Fault (Binder Symbol Annotation) := do
  let hint ← names.readHint binder.hint
  return ⟨← names.binding binder.name, hint⟩

def readBinders (names : Names) :
    List (Binder Ident TypeExpr) → Except Fault (List (Binder Symbol Annotation))
  | [] => return []
  | first :: rest => do
    let first ← names.readBinder first
    return first :: (← names.readBinders rest)

mutual
def readExpr (names : Names) :
    Expr Ident Mention TypeExpr Span → Except Fault (Expr Symbol Reference Annotation Span)
  | .lit span value => return .lit span value
  | .var span mention => return .var span ⟨← names.target mention.ident, mention.order⟩
  | .unary span op operand => return .unary span op (← readExpr names operand)
  | .binary span op lhs rhs => do
    let lhs ← readExpr names lhs
    return .binary span op lhs (← readExpr names rhs)
  | .cond span test yes no => do
    let test ← readExpr names test
    let yes ← readExpr names yes
    return .cond span test yes (← readExpr names no)
  | .letIn span binder bound body => do
    let bound ← readExpr names bound
    let binder ← names.readBinder binder
    return .letIn span binder bound (← readExpr names body)
  | .letRec span name params result body rest => do
    let name ← names.binding name
    let params ← names.readBinders params
    let result ← names.readHint result
    let body ← readExpr names body
    return .letRec span name params result body (← readExpr names rest)
  | .letTuple span binders bound body => do
    let bound ← readExpr names bound
    let binders ← names.readBinders binders
    return .letTuple span binders bound (← readExpr names body)
  | .apply span callee args => do
    let callee ← readExpr names callee
    return .apply span callee (← readExprs names args)
  | .tuple span elements => return .tuple span (← readExprs names elements)
  | .arrayMake span size element => do
    let size ← readExpr names size
    return .arrayMake span size (← readExpr names element)
  | .arrayLit span elements => return .arrayLit span (← readExprs names elements)
  | .arrayLen span array => return .arrayLen span (← readExpr names array)
  | .arrayGet span array index => do
    let array ← readExpr names array
    return .arrayGet span array (← readExpr names index)
  | .arraySet span array index value => do
    let array ← readExpr names array
    let index ← readExpr names index
    return .arraySet span array index (← readExpr names value)
  | .some span element => return .some span (← readExpr names element)
  | .none span => return .none span
  | .matchOption span target binder someArm noneArm => do
    let target ← readExpr names target
    let binder ← names.readBinder binder
    let someArm ← readExpr names someArm
    return .matchOption span target binder someArm (← readExpr names noneArm)
  | .typed span child type => do
    let child ← readExpr names child
    return .typed span child (← names.readType type)
def readExprs (names : Names) :
    List (Expr Ident Mention TypeExpr Span) →
      Except Fault (List (Expr Symbol Reference Annotation Span))
  | [] => return []
  | first :: rest => do
    let first ← readExpr names first
    return first :: (← readExprs names rest)
end

def readAliases (names : Names) : List (Alias TypeExpr) → Except Fault (List (Alias Annotation))
  | [] => return []
  | first :: rest => do
    let type ← names.readType first.type
    return ⟨first.name, type⟩ :: (← names.readAliases rest)

def readDeclarations (names : Names) :
    List (Declaration TypeExpr) → Except Fault (List (Declaration Annotation))
  | [] => return []
  | first :: rest => do
    let type ← names.readType first.type
    return ⟨first.name, type, first.linkName, first.span⟩ :: (← names.readDeclarations rest)

def read (names : Names) (program : Surface) : Except Fault Resolved := do
  let aliases ← names.readAliases program.aliases
  let externals ← names.readDeclarations program.externals
  return { aliases, externals, body := ← names.readExpr program.body }

end Names

/-! ### Entering -/

structure Entering where
  /-- The binders in scope by name, the innermost scope first. -/
  scopes : List (List (String × Nat)) := []
  names : Names := {}

def Entering.value (state : Entering) (name : String) : ValueName :=
  match state.scopes.findSome? (·.lookup name) with
  | some number => .bound number
  | none => .external name

def Entering.isTaken (state : Entering) (name : String) : Bool :=
  !isWildcard name && ((state.scopes.headD []).lookup name).isSome

abbrev EnterM := StateT Entering (Except Stop)

namespace Enter

def reject {α : Type} (problem : Problem) (span : Span) : EnterM α :=
  throw (.rejected { problem, span })

def push : EnterM Unit := modify fun state => { state with scopes := [] :: state.scopes }

def pop : EnterM Unit := do
  let state ← get
  match state.scopes with
  | [] => throw (.fault .unpushedScope)
  | _ :: outer => set { state with scopes := outer }

def bind (name : String) (number : Nat) : EnterM Unit := do
  let state ← get
  match state.scopes with
  | [] => throw (.fault .noScope)
  | scope :: outer => set { state with scopes := ((name, number) :: scope) :: outer }

def inScope (body : EnterM Unit) : EnterM Unit := do
  push
  body
  pop

def declare (ident : Ident) : EnterM Unit := do
  let state ← get
  if state.isTaken ident.name then reject (.duplicateSymbol ident.name) ident.span
  else
    set { state with names := state.names.addSymbol ident }
    if isWildcard ident.name then return else bind ident.name state.names.symbols.size

def target (ident : Ident) : EnterM Unit := do
  if isWildcard ident.name then reject .wildcardUse ident.span
  let state ← get
  set { state with names := state.names.addValue ident (state.value ident.name) }

def addType (ident : Ident) (type : TypeName) : EnterM Unit :=
  modify fun state => { state with names := state.names.addType ident type }

mutual
def type (aliases : List String) : TypeExpr → EnterM Unit
  | .hole _ => return
  | .named _ name =>
    match Primitive.ofName? name.name, aliases.idxOf? name.name with
    | some primitive, _ => addType name (.prim primitive)
    | none, some index => addType name (.synonym index)
    | none, none => reject (.unknownType name.name) name.span
  | .applied _ name args =>
    match Constructor.ofName? name.name, args with
    | some constructor, [arg] => do
      addType name (.con constructor)
      type aliases arg
    | _, _ =>
      reject (.unknownType (name.name ++ " (with " ++ toString args.length ++ " arguments)")) name.span
  | .tuple _ elements => types aliases elements
  | .function _ params result => do
    types aliases params
    type aliases result
def types (aliases : List String) : List TypeExpr → EnterM Unit
  | [] => return
  | first :: rest => do
    type aliases first
    types aliases rest
end

def hint (aliases : List String) : Option TypeExpr → EnterM Unit
  | none => return
  | some here => type aliases here

def binder (aliases : List String) (binder : Binder Ident TypeExpr) : EnterM Unit := do
  hint aliases binder.hint
  declare binder.name

def binders (aliases : List String) : List (Binder Ident TypeExpr) → EnterM Unit
  | [] => return
  | first :: rest => do
    binder aliases first
    binders aliases rest

mutual
def expr (aliases : List String) : Expr Ident Mention TypeExpr Span → EnterM Unit
  | .lit _ _ => return
  | .var _ mention => target mention.ident
  | .unary _ _ operand => expr aliases operand
  | .binary _ _ lhs rhs => do
    expr aliases lhs
    expr aliases rhs
  | .cond _ test yes no => do
    expr aliases test
    expr aliases yes
    expr aliases no
  | .letIn _ name bound body => do
    expr aliases bound
    inScope do
      binder aliases name
      expr aliases body
  | .letRec _ name params result body rest =>
    inScope do
      declare name
      inScope do
        binders aliases params
        hint aliases result
        expr aliases body
      expr aliases rest
  | .letTuple _ names bound body => do
    expr aliases bound
    inScope do
      binders aliases names
      expr aliases body
  | .apply _ callee args => do
    expr aliases callee
    exprs aliases args
  | .tuple _ elements => exprs aliases elements
  | .arrayMake _ size element => do
    expr aliases size
    expr aliases element
  | .arrayLit _ elements => exprs aliases elements
  | .arrayLen _ array => expr aliases array
  | .arrayGet _ array index => do
    expr aliases array
    expr aliases index
  | .arraySet _ array index value => do
    expr aliases array
    expr aliases index
    expr aliases value
  | .some _ element => expr aliases element
  | .none _ => return
  | .matchOption _ target name someArm noneArm => do
    expr aliases target
    inScope do
      binder aliases name
      expr aliases someArm
    expr aliases noneArm
  | .typed _ child hint => do
    expr aliases child
    type aliases hint
def exprs (aliases : List String) : List (Expr Ident Mention TypeExpr Span) → EnterM Unit
  | [] => return
  | first :: rest => do
    expr aliases first
    exprs aliases rest
end

def aliases (before : List String) : List (Alias TypeExpr) → EnterM Unit
  | [] => return
  | first :: rest => do
    type before first.type
    if before.contains first.name.name || (Primitive.ofName? first.name.name).isSome then
      reject (.duplicateSymbol first.name.name) first.name.span
    aliases (before ++ [first.name.name]) rest

def declarations (aliases before : List String) : List (Declaration TypeExpr) → EnterM Unit
  | [] => return
  | first :: rest => do
    type aliases first.type
    if before.contains first.name.name then
      reject (.duplicateSymbol first.name.name) first.name.span
    declarations aliases (first.name.name :: before) rest

end Enter

/-- Enters the meaning of every name into the tables, or reports the first name that has no good one. -/
def Surface.enter (program : Surface) : Except Stop Names := do
  let aliases := program.aliases.map fun entry => entry.name.name
  let (_, state) ← (do
    Enter.aliases [] program.aliases
    Enter.declarations aliases [] program.externals
    Enter.expr aliases program.body : EnterM Unit).run {}
  return state.names

end MiddleEnd
