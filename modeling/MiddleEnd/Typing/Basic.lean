import MiddleEnd.Scope.Basic
import MiddleEnd.Ty.Printer
import MiddleEnd.Typing.Builtin

/-! Programs with the types of their parts. -/

namespace MiddleEnd

/-- A use of a polymorphic binding: its type scheme, the type at this use, and what each placeholder
of the scheme has become. -/
structure Instantiation where
  symbol : String
  scheme : Ty
  type : Ty
  mapping : List (Nat × Ty)

structure Use where
  target : Target
  order : Nat
  instantiation : Option Instantiation := none

/-- A binder with its type scheme. -/
structure Bound where
  symbol : Symbol
  type : Ty

/-- An expression's place in the source and its type. -/
structure Note where
  span : Span
  type : Ty

abbrev TypedExpr := Expr Bound Use Annotation Note

def Expr.type (expr : TypedExpr) : Ty := expr.note.type

def Expr.span (expr : TypedExpr) : Span := expr.note.span

abbrev TypeTable := NameMap Ty

def TypeTable.dump (table : TypeTable) : String :=
  "\n".intercalate (sortNames (table.entries.map fun (name, type) => name ++ " : " ++ type.print))

/-- A program whose types are known. -/
structure Typed where
  body : TypedExpr
  externals : NameMap External

namespace Typed

def table (program : Typed) : TypeTable :=
  .ofList (program.body.names.map fun bound => (bound.symbol.name, bound.type))

def instantiations (program : Typed) : List Instantiation :=
  let uses := sortBy (fun first second => first.order ≤ second.order) program.body.refs
  uses.filterMap Use.instantiation

def instantiationsOf (program : Typed) (name : String) : List Instantiation :=
  program.instantiations.filter (fun use => use.symbol == name)

def ownExternals (program : Typed) : List (String × External) :=
  program.externals.sorted.filter fun (name, external) => !isBuiltin name external

end Typed

end MiddleEnd
