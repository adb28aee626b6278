import MiddleEnd.Interner
import MiddleEnd.Tree.Walk
import MiddleEnd.Ty.Basic

/-! Programs whose names are resolved: every binder has a name of its own, and every variable says
which binder it means. -/

namespace MiddleEnd

/-- A binder. Its number counts the binders before it. -/
structure Symbol where
  number : Nat
  display : String
  span : Span
  deriving DecidableEq

namespace Symbol

def name (symbol : Symbol) : String := symbol.display ++ "$" ++ toString (symbol.number + 1)

/-- A wildcard has a name, so that its value can be computed, but is never in scope. -/
def isWildcard (symbol : Symbol) : Bool := MiddleEnd.isWildcard symbol.display

end Symbol

/-- What a variable stands for. A name that no binder introduces is provided from outside. -/
inductive Target where
  | bound (symbol : Symbol)
  | external (name : String)
  deriving DecidableEq

def Target.name : Target → String
  | bound symbol => symbol.name
  | external name => name

structure Reference where
  target : Target
  order : Nat

/-- A type annotation whose names are resolved; an alias is given by its place. -/
inductive Annotation where
  | hole (span : Span)
  | prim (span : Span) (primitive : Primitive)
  | synonym (span : Span) (index : Nat)
  | app (span : Span) (constructor : Constructor) (element : Annotation)
  | tuple (span : Span) (elements : List Annotation)
  | function (span : Span) (params : List Annotation) (result : Annotation)

/-- The meaning of a type name. -/
inductive TypeName where
  | prim (primitive : Primitive)
  | con (constructor : Constructor)
  | synonym (index : Nat)

namespace Annotation

def span : Annotation → Span
  | hole span | prim span _ | synonym span _ | app span _ _ | tuple span _
  | function span _ _ => span

mutual
def typeNames : Annotation → List TypeName
  | hole _ => []
  | prim _ primitive => [.prim primitive]
  | synonym _ index => [.synonym index]
  | app _ con element => .con con :: element.typeNames
  | tuple _ elements => typeNamesOf elements
  | function _ params result => typeNamesOf params ++ result.typeNames
def typeNamesOf : List Annotation → List TypeName
  | [] => []
  | hint :: hints => hint.typeNames ++ typeNamesOf hints
end

end Annotation

abbrev Resolved := Program Symbol Reference Annotation Span

namespace Resolved

def symbols (program : Resolved) : List Symbol := program.body.names

def undeclared (program : Resolved) : List String :=
  nameSet (program.body.refs.filterMap fun ref =>
    match ref.target with
    | .bound _ => none
    | .external name => some name)

def dump (program : Resolved) : String :=
  "\n".intercalate
    (program.symbols.map Symbol.name ++ program.undeclared.map ("extern " ++ ·))

def typeNames (program : Resolved) : List TypeName := program.hints.flatMap Annotation.typeNames

end Resolved

end MiddleEnd
