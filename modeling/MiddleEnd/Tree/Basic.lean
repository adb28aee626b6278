import MiddleEnd.Literal
import MiddleEnd.Operator
import MiddleEnd.Span

/-! Programs as trees. A tree is the same before and after names are resolved and types are found:
what differs is what stands at its binders (`N`), its variables (`R`), its type annotations (`H`)
and at each expression (`A`). -/

namespace MiddleEnd

/-- A name as written. No two of them have one `id`. -/
structure Ident where
  name : String
  span : Span
  id : Nat

/-- A variable as written. `order` is its place in the order in which the variables of the program
were put into the tree. -/
structure Mention where
  ident : Ident
  order : Nat

/-- A type as written; `hole` leaves it to inference. -/
inductive TypeExpr where
  | hole (span : Span)
  | named (span : Span) (name : Ident)
  | applied (span : Span) (name : Ident) (args : List TypeExpr)
  | tuple (span : Span) (elements : List TypeExpr)
  | function (span : Span) (params : List TypeExpr) (result : TypeExpr)

def TypeExpr.withSpan (span : Span) : TypeExpr → TypeExpr
  | hole _ => .hole span
  | named _ name => .named span name
  | applied _ name args => .applied span name args
  | tuple _ elements => .tuple span elements
  | function _ params result => .function span params result

/-- A name that is introduced, with its annotation. -/
structure Binder (N H : Type) where
  name : N
  hint : Option H := none

inductive Expr (N R H A : Type) where
  | lit (note : A) (value : Literal)
  | var (note : A) (ref : R)
  | unary (note : A) (op : UnaryOp) (operand : Expr N R H A)
  | binary (note : A) (op : BinaryOp) (lhs rhs : Expr N R H A)
  | cond (note : A) (test yes no : Expr N R H A)
  | letIn (note : A) (binder : Binder N H) (bound body : Expr N R H A)
  /-- A recursive function: its name, parameters, result annotation and body, and then the
  expression in which it may be used. -/
  | letRec (note : A) (name : N) (params : List (Binder N H)) (result : Option H)
      (body rest : Expr N R H A)
  | letTuple (note : A) (binders : List (Binder N H)) (bound body : Expr N R H A)
  | apply (note : A) (callee : Expr N R H A) (args : List (Expr N R H A))
  | tuple (note : A) (elements : List (Expr N R H A))
  | arrayMake (note : A) (size element : Expr N R H A)
  | arrayLit (note : A) (elements : List (Expr N R H A))
  | arrayLen (note : A) (array : Expr N R H A)
  | arrayGet (note : A) (array index : Expr N R H A)
  | arraySet (note : A) (array index value : Expr N R H A)
  | some (note : A) (element : Expr N R H A)
  | none (note : A)
  | matchOption (note : A) (target : Expr N R H A) (binder : Binder N H)
      (someArm noneArm : Expr N R H A)
  | typed (note : A) (child : Expr N R H A) (hint : H)

namespace Expr

variable {N R H A : Type}

def note : Expr N R H A → A
  | lit note _ | var note _ | unary note _ _ | binary note _ _ _ | cond note _ _ _
  | letIn note _ _ _ | letRec note _ _ _ _ _ | letTuple note _ _ _ | apply note _ _ | tuple note _
  | arrayMake note _ _ | arrayLit note _ | arrayLen note _ | arrayGet note _ _
  | arraySet note _ _ _ | some note _ | none note | matchOption note _ _ _ _
  | typed note _ _ => note

def withNote (note : A) : Expr N R H A → Expr N R H A
  | lit _ value => .lit note value
  | var _ ref => .var note ref
  | unary _ op operand => .unary note op operand
  | binary _ op lhs rhs => .binary note op lhs rhs
  | cond _ test yes no => .cond note test yes no
  | letIn _ binder bound body => .letIn note binder bound body
  | letRec _ name params result body rest => .letRec note name params result body rest
  | letTuple _ binders bound body => .letTuple note binders bound body
  | apply _ callee args => .apply note callee args
  | tuple _ elements => .tuple note elements
  | arrayMake _ size element => .arrayMake note size element
  | arrayLit _ elements => .arrayLit note elements
  | arrayLen _ array => .arrayLen note array
  | arrayGet _ array index => .arrayGet note array index
  | arraySet _ array index value => .arraySet note array index value
  | some _ element => .some note element
  | none _ => .none note
  | matchOption _ target binder someArm noneArm => .matchOption note target binder someArm noneArm
  | typed _ child hint => .typed note child hint

end Expr

/-- A name for a type. -/
structure Alias (H : Type) where
  name : Ident
  type : H

/-- A function that is provided from outside, under the name it is linked by. -/
structure Declaration (H : Type) where
  name : Ident
  type : H
  linkName : String
  span : Span

structure Program (N R H A : Type) where
  aliases : List (Alias H) := []
  externals : List (Declaration H) := []
  body : Expr N R H A

abbrev Surface := Program Ident Mention TypeExpr Span

end MiddleEnd
