import MiddleEnd.Tree.Basic

/-! Trees from left to right: the order in which a reader of the program meets its parts. -/

namespace MiddleEnd

/-- What a walk meets. Every `enter` has its `leave`. -/
inductive Event (N R H A : Type) where
  | enter (note : A)
  | enterBinder
  | enterFunction
  | name (name : N)
  | ref (ref : R)
  | hint (hint : H)
  | leave

namespace Event

variable {N R H A : Type}

def note? : Event N R H A → Option A
  | enter here => some here
  | _ => none

def name? : Event N R H A → Option N
  | name here => some here
  | _ => none

def ref? : Event N R H A → Option R
  | ref here => some here
  | _ => none

def hint? : Event N R H A → Option H
  | hint here => some here
  | _ => none

end Event

variable {N R H A : Type}

def Binder.events (binder : Binder N H) : List (Event N R H A) :=
  .enterBinder :: .name binder.name :: (binder.hint.toList.map .hint ++ [.leave])

namespace Expr

def between (note : A) (parts : List (Event N R H A)) : List (Event N R H A) :=
  .enter note :: (parts ++ [.leave])

mutual
def events : Expr N R H A → List (Event N R H A)
  | lit note _ => between note []
  | var note ref => between note [.ref ref]
  | unary note _ operand => between note operand.events
  | binary note _ lhs rhs => between note (lhs.events ++ rhs.events)
  | cond note test yes no => between note (test.events ++ yes.events ++ no.events)
  | letIn note binder bound body => between note (bound.events ++ binder.events ++ body.events)
  | letRec note name params result body rest =>
    between note
      (.enterFunction :: .name name :: (params.flatMap Binder.events ++
        result.toList.map .hint ++ body.events ++ .leave :: rest.events))
  | letTuple note binders bound body =>
    between note (bound.events ++ binders.flatMap Binder.events ++ body.events)
  | apply note callee args => between note (callee.events ++ eventsOf args)
  | tuple note elements => between note (eventsOf elements)
  | arrayMake note size element => between note (size.events ++ element.events)
  | arrayLit note elements => between note (eventsOf elements)
  | arrayLen note array => between note array.events
  | arrayGet note array index => between note (array.events ++ index.events)
  | arraySet note array index value =>
    between note (array.events ++ index.events ++ value.events)
  | some note element => between note element.events
  | none note => between note []
  | matchOption note target binder someArm noneArm =>
    between note (target.events ++ binder.events ++ someArm.events ++ noneArm.events)
  | typed note child hint => between note (child.events ++ [.hint hint])
def eventsOf : List (Expr N R H A) → List (Event N R H A)
  | [] => []
  | expr :: exprs => expr.events ++ eventsOf exprs
end

def notes (expr : Expr N R H A) : List A := expr.events.filterMap Event.note?

def names (expr : Expr N R H A) : List N := expr.events.filterMap Event.name?

def refs (expr : Expr N R H A) : List R := expr.events.filterMap Event.ref?

end Expr

def Program.hints (program : Program N R H A) : List H :=
  program.aliases.map Alias.type ++ program.externals.map Declaration.type ++
    program.body.events.filterMap Event.hint?

namespace TypeExpr

mutual
def trace : TypeExpr → List String
  | hole _ => ["type(", ")"]
  | named _ name => ["type(", "id:" ++ name.name, ")"]
  | applied _ name args => "type(" :: ("id:" ++ name.name) :: (traceOf args ++ [")"])
  | tuple _ elements => "type(" :: (traceOf elements ++ [")"])
  | function _ params result => "type(" :: (traceOf params ++ result.trace ++ [")"])
def traceOf : List TypeExpr → List String
  | [] => []
  | type :: types => type.trace ++ traceOf types
end

mutual
def idents : TypeExpr → List String
  | hole _ => []
  | named _ name => [name.name]
  | applied _ name args => name.name :: identsOf args
  | tuple _ elements => identsOf elements
  | function _ params result => identsOf params ++ result.idents
def identsOf : List TypeExpr → List String
  | [] => []
  | type :: types => type.idents ++ identsOf types
end

end TypeExpr

namespace Event

def trace : Event Ident Mention TypeExpr Span → List String
  | enter _ => ["expr("]
  | enterBinder => ["binder("]
  | enterFunction => ["function("]
  | name here => ["id:" ++ here.name]
  | ref here => ["id:" ++ here.ident.name]
  | hint here => here.trace
  | leave => [")"]

def idents : Event Ident Mention TypeExpr Span → List String
  | name here => [here.name]
  | ref here => [here.ident.name]
  | hint here => here.idents
  | _ => []

end Event

def Surface.trace (program : Surface) : String :=
  let aliases := program.aliases.flatMap fun entry =>
    "alias(" :: ("id:" ++ entry.name.name) :: (entry.type.trace ++ [")"])
  let externals := program.externals.flatMap fun entry =>
    ("external:" ++ entry.linkName ++ "(") :: ("id:" ++ entry.name.name) ::
      (entry.type.trace ++ [")"])
  " ".intercalate (aliases ++ externals ++ program.body.events.flatMap Event.trace)

def Surface.idents (program : Surface) : List String :=
  program.aliases.flatMap (fun entry => entry.name.name :: entry.type.idents) ++
    program.externals.flatMap (fun entry => entry.name.name :: entry.type.idents) ++
    program.body.events.flatMap Event.idents

end MiddleEnd
