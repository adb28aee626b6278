import MiddleEnd.Diagnostic
import MiddleEnd.Scope.Basic

/-! Resolution of names by lexical scope. -/

namespace MiddleEnd

abbrev Scopes := List (List (String × Symbol))

namespace Scopes

def find? (scopes : Scopes) (name : String) : Option Symbol :=
  scopes.findSome? (fun scope => scope.lookup name)

def innermost (scopes : Scopes) : List (String × Symbol) := scopes.headD []

def bind (scopes : Scopes) (name : String) (symbol : Symbol) : Scopes :=
  ((name, symbol) :: scopes.innermost) :: scopes.tail

end Scopes

abbrev ResolveM := StateT Nat (Except Diagnostic)

def reject {α : Type} (problem : Problem) (span : Span) : ResolveM α :=
  throw { problem, span }

mutual
def TypeExpr.resolve (aliases : List String) : TypeExpr → Except Diagnostic Annotation
  | .hole span => return .hole span
  | .named span name =>
    match Primitive.ofName? name.name, aliases.idxOf? name.name with
    | some primitive, _ => return .prim span primitive
    | none, some index => return .synonym span index
    | none, none => throw { problem := .unknownType name.name, span := name.span }
  | .applied span name args => do
    match Constructor.ofName? name.name, args with
    | some con, [arg] => return .app span con (← arg.resolve aliases)
    | _, _ =>
      throw {
        problem := .unknownType
          (name.name ++ " (with " ++ toString args.length ++ " arguments)")
        span := name.span }
  | .tuple span elements => return .tuple span (← TypeExpr.resolveAll aliases elements)
  | .function span params result => do
    let params ← TypeExpr.resolveAll aliases params
    return .function span params (← result.resolve aliases)
def TypeExpr.resolveAll (aliases : List String) :
    List TypeExpr → Except Diagnostic (List Annotation)
  | [] => return []
  | type :: types => do
    let type ← type.resolve aliases
    return type :: (← TypeExpr.resolveAll aliases types)
end

namespace Resolve

/-- Makes the symbol of a binder and, unless it is a wildcard, puts it into the innermost scope. -/
def declare (scopes : Scopes) (ident : Ident) : ResolveM (Symbol × Scopes) := do
  if !isWildcard ident.name && (scopes.innermost.lookup ident.name).isSome then
    reject (.duplicateSymbol ident.name) ident.span
  let symbol : Symbol := ⟨← get, ident.name, ident.span⟩
  modify (· + 1)
  return (symbol, if isWildcard ident.name then scopes else scopes.bind ident.name symbol)

def hint (aliases : List String) : Option TypeExpr → ResolveM (Option Annotation)
  | none => return none
  | some type => return some (← type.resolve aliases)

def binder (aliases : List String) (scopes : Scopes) (binder : Binder Ident TypeExpr) :
    ResolveM (Binder Symbol Annotation × Scopes) := do
  let hint ← hint aliases binder.hint
  let (symbol, scopes) ← declare scopes binder.name
  return (⟨symbol, hint⟩, scopes)

def binders (aliases : List String) (scopes : Scopes) :
    List (Binder Ident TypeExpr) → ResolveM (List (Binder Symbol Annotation) × Scopes)
  | [] => return ([], scopes)
  | first :: rest => do
    let (first, scopes) ← binder aliases scopes first
    let (rest, scopes) ← binders aliases scopes rest
    return (first :: rest, scopes)

def target (scopes : Scopes) (ident : Ident) : ResolveM Target := do
  if isWildcard ident.name then reject .wildcardUse ident.span
  match scopes.find? ident.name with
  | some symbol => return .bound symbol
  | none => return .external ident.name

mutual
def expr (aliases : List String) (scopes : Scopes) :
    Expr Ident Mention TypeExpr Span → ResolveM (Expr Symbol Reference Annotation Span)
  | .lit span value => return .lit span value
  | .var span mention => return .var span ⟨← target scopes mention.ident, mention.order⟩
  | .unary span op operand => return .unary span op (← expr aliases scopes operand)
  | .binary span op lhs rhs => do
    let lhs ← expr aliases scopes lhs
    return .binary span op lhs (← expr aliases scopes rhs)
  | .cond span test yes no => do
    let test ← expr aliases scopes test
    let yes ← expr aliases scopes yes
    return .cond span test yes (← expr aliases scopes no)
  | .letIn span name bound body => do
    let bound ← expr aliases scopes bound
    let (name, inner) ← binder aliases ([] :: scopes) name
    return .letIn span name bound (← expr aliases inner body)
  | .letRec span name params result body rest => do
    let (name, outer) ← declare ([] :: scopes) name
    let (params, inner) ← binders aliases ([] :: outer) params
    let result ← hint aliases result
    let body ← expr aliases inner body
    return .letRec span name params result body (← expr aliases outer rest)
  | .letTuple span names bound body => do
    let bound ← expr aliases scopes bound
    let (names, inner) ← binders aliases ([] :: scopes) names
    return .letTuple span names bound (← expr aliases inner body)
  | .apply span callee args => do
    let callee ← expr aliases scopes callee
    return .apply span callee (← exprs aliases scopes args)
  | .tuple span elements => return .tuple span (← exprs aliases scopes elements)
  | .arrayMake span size element => do
    let size ← expr aliases scopes size
    return .arrayMake span size (← expr aliases scopes element)
  | .arrayLit span elements => return .arrayLit span (← exprs aliases scopes elements)
  | .arrayLen span array => return .arrayLen span (← expr aliases scopes array)
  | .arrayGet span array index => do
    let array ← expr aliases scopes array
    return .arrayGet span array (← expr aliases scopes index)
  | .arraySet span array index value => do
    let array ← expr aliases scopes array
    let index ← expr aliases scopes index
    return .arraySet span array index (← expr aliases scopes value)
  | .some span element => return .some span (← expr aliases scopes element)
  | .none span => return .none span
  | .matchOption span target name someArm noneArm => do
    let target ← expr aliases scopes target
    let (name, inner) ← binder aliases ([] :: scopes) name
    let someArm ← expr aliases inner someArm
    return .matchOption span target name someArm (← expr aliases scopes noneArm)
  | .typed span child type => do
    let child ← expr aliases scopes child
    return .typed span child (← type.resolve aliases)
def exprs (aliases : List String) (scopes : Scopes) :
    List (Expr Ident Mention TypeExpr Span) →
      ResolveM (List (Expr Symbol Reference Annotation Span))
  | [] => return []
  | first :: rest => do
    let first ← expr aliases scopes first
    return first :: (← exprs aliases scopes rest)
end

/-- Each alias sees the aliases before it. No two have one name, and none that of a primitive. -/
def aliases (before : List String) :
    List (Alias TypeExpr) → Except Diagnostic (List (Alias Annotation))
  | [] => return []
  | first :: rest => do
    let type ← first.type.resolve before
    if before.contains first.name.name || (Primitive.ofName? first.name.name).isSome then
      throw { problem := .duplicateSymbol first.name.name, span := first.name.span }
    return ⟨first.name, type⟩ :: (← aliases (before ++ [first.name.name]) rest)

def declarations (aliases before : List String) :
    List (Declaration TypeExpr) → Except Diagnostic (List (Declaration Annotation))
  | [] => return []
  | first :: rest => do
    let type ← first.type.resolve aliases
    if before.contains first.name.name then
      throw { problem := .duplicateSymbol first.name.name, span := first.name.span }
    let rest ← declarations aliases (first.name.name :: before) rest
    return ⟨first.name, type, first.linkName, first.span⟩ :: rest

end Resolve

/-- Resolves the names of a program, or reports the first of them that has no good meaning. -/
def Surface.resolve (program : Surface) : Except Diagnostic Resolved := do
  let aliases ← Resolve.aliases [] program.aliases
  let names := aliases.map (fun entry => entry.name.name)
  let externals ← Resolve.declarations names [] program.externals
  let (body, _) ← (Resolve.expr names [] program.body).run 0
  return { aliases, externals, body }

end MiddleEnd
