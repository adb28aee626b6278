/-! Operators of the language. -/

namespace MiddleEnd

inductive UnaryOp where
  | not
  | negate
  | floatNegate
  deriving DecidableEq, Repr

namespace UnaryOp

def symbol : UnaryOp → String
  | not => "not"
  | negate => "-"
  | floatNegate => "-."

def label : UnaryOp → String
  | not => "Not"
  | negate => "Negate"
  | floatNegate => "FloatNegate"

def all : List UnaryOp := [not, negate, floatNegate]

def ofSymbol? (symbol : String) : Option UnaryOp := all.find? (fun op => op.symbol == symbol)

end UnaryOp

inductive OperatorClass where
  | intArithmetic
  | floatArithmetic
  | ordering
  | equality
  | logical
  deriving DecidableEq, Repr

def OperatorClass.label : OperatorClass → String
  | intArithmetic => "IntArithmetic"
  | floatArithmetic => "FloatArithmetic"
  | ordering => "Ordering"
  | equality => "Equality"
  | logical => "Logical"

inductive BinaryOp where
  | add
  | subtract
  | multiply
  | divide
  | modulus
  | floatAdd
  | floatSubtract
  | floatMultiply
  | floatDivide
  | less
  | lessOrEqual
  | equals
  | notEquals
  | greater
  | greaterOrEqual
  | and
  | or
  deriving DecidableEq, Repr

namespace BinaryOp

def symbol : BinaryOp → String
  | add => "+"
  | subtract => "-"
  | multiply => "*"
  | divide => "/"
  | modulus => "%"
  | floatAdd => "+."
  | floatSubtract => "-."
  | floatMultiply => "*."
  | floatDivide => "/."
  | less => "<"
  | lessOrEqual => "<="
  | equals => "="
  | notEquals => "<>"
  | greater => ">"
  | greaterOrEqual => ">="
  | and => "&&"
  | or => "||"

def label : BinaryOp → String
  | add => "Add"
  | subtract => "Subtract"
  | multiply => "Multiply"
  | divide => "Divide"
  | modulus => "Modulus"
  | floatAdd => "FloatAdd"
  | floatSubtract => "FloatSubtract"
  | floatMultiply => "FloatMultiply"
  | floatDivide => "FloatDivide"
  | less => "LessThan"
  | lessOrEqual => "LessThanOrEqualTo"
  | equals => "Equals"
  | notEquals => "NotEquals"
  | greater => "GreaterThan"
  | greaterOrEqual => "GreaterThanOrEqualTo"
  | and => "LogicalAnd"
  | or => "LogicalOr"

def all : List BinaryOp :=
  [add, subtract, multiply, divide, modulus, floatAdd, floatSubtract, floatMultiply, floatDivide,
   less, lessOrEqual, equals, notEquals, greater, greaterOrEqual, and, or]

def ofSymbol? (symbol : String) : Option BinaryOp := all.find? (fun op => op.symbol == symbol)

def operatorClass : BinaryOp → OperatorClass
  | add | subtract | multiply | divide | modulus => .intArithmetic
  | floatAdd | floatSubtract | floatMultiply | floatDivide => .floatArithmetic
  | less | lessOrEqual | greater | greaterOrEqual => .ordering
  | equals | notEquals => .equality
  | and | or => .logical

end BinaryOp

end MiddleEnd
