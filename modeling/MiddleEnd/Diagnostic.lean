import MiddleEnd.Settings
import MiddleEnd.Source

/-! What the compiler tells a user about a program it rejects. -/

namespace MiddleEnd

inductive Shape where
  | function
  | tuple
  deriving DecidableEq, Repr

def Shape.parts : Shape → String
  | function => "parameters of function"
  | tuple => "elements of tuple"

inductive Problem where
  | duplicateSymbol (name : String)
  | wildcardUse
  | unknownType (name : String)
  | mismatch (left right : String)
  | arity (shape : Shape) (leftCount rightCount : Nat) (left right : String)
  | occurs (var type : String)
  | cannotInfer (what type : String)
  | comparison (operator type : String) (ordering : Bool)
  deriving DecidableEq, Repr

def Problem.message : Problem → String
  | duplicateSymbol name => s!"symbol '{name}' is defined more than once in the same scope"
  | wildcardUse => "'_' discards a value and cannot be referenced"
  | unknownType name => s!"unknown type name '{name}'"
  | mismatch left right => s!"type mismatch between '{left}' and '{right}'"
  | arity shape leftCount rightCount left right =>
    "number of " ++ shape.parts ++
      s!" does not match: {leftCount} vs {rightCount} (between '{left}' and '{right}')"
  | occurs var type => s!"cyclic dependency: type variable '{var}' occurs in '{type}'"
  | cannotInfer what type =>
    s!"cannot infer the type of {what}: '{type}' is not fully determined"
  | comparison operator type true => s!"'{type}' can't be compared with operator '{operator}'"
  | comparison operator type false =>
    s!"'{type}' can't be compared with operator '{operator}'" ++
      " since it contains an array or a function"

structure Diagnostic where
  problem : Problem
  span : Span
  /-- Where the problem was met, innermost first. -/
  notes : List String := []
  /-- The part of the compiler that reported the problem. -/
  origin : Option String := none
  deriving DecidableEq, Repr

namespace Diagnostic

def text (error : Diagnostic) : String :=
  error.problem.message ++ String.join (error.notes.map (fun note => "\n  note: " ++ note))

def coloured? (error : Diagnostic) (source : Source) (terminal : Terminal) : Option String := do
  let position ← source.position? error.span
  let excerpt ← source.highlight? terminal error.span
  let origin :=
    match error.origin with
    | none => ""
    | some origin => terminal.paint .blue "backtrace" ++ ": " ++ terminal.paint .white origin ++ "\n"
  let headline :=
    terminal.paint .red "error" ++ ": " ++ error.problem.message ++ " " ++
      terminal.paint .white ("(at " ++ position ++ ")") ++ "\n"
  let notes := error.notes.map (fun note => "\n  " ++ terminal.paint .cyan "note" ++ ": " ++ note)
  return origin ++ headline ++ excerpt ++ String.join notes

def render? (error : Diagnostic) (source : Source) (terminal : Terminal) (settings : Settings) :
    Option String :=
  (error.coloured? source terminal).map fun text =>
    if settings.color then text else terminal.strip text

end Diagnostic

end MiddleEnd
