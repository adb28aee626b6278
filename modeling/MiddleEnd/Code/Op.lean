import MiddleEnd.Operator
import MiddleEnd.Text.Fixed
import MiddleEnd.Text.Quoted

/-! Operations on named values. -/

namespace MiddleEnd

inductive CallKind where
  /-- Of a known function by its label. -/
  | direct
  /-- Through a closure value. -/
  | closure
  /-- Of a function from outside the program. -/
  | external
  deriving DecidableEq, Repr

def CallKind.mark : CallKind → String
  | direct => ""
  | closure => "cls"
  | external => "x"

/-- What an instruction without inner blocks computes. Operands are names. -/
inductive Op where
  | nop
  | const (value : Literal)
  | unary (op : UnaryOp) (operand : String)
  | binary (op : BinaryOp) (lhs rhs : String)
  /-- Another name for a local value. -/
  | ref (name : String)
  /-- What stands outside under a name, as a value. -/
  | external (name : String)
  | call (kind : CallKind) (callee : String) (args : List String)
  | tuple (elements : List String)
  | field (source : String) (index : Nat)
  | arrayMake (size element : String)
  | arrayLit (elements : List String)
  | arrayGet (array index : String)
  | arraySet (array index value : String)
  | arrayLen (array : String)
  | some (element : String)
  | none
  | isSome (option : String)
  | unwrap (option : String)
  /-- The closure of a function over the current values of its captures. -/
  | closure (captures : List String) (function : String)
  deriving DecidableEq, Repr

namespace Op

def operands : Op → List String
  | nop | const _ | external _ | none => []
  | unary _ operand => [operand]
  | binary _ lhs rhs => [lhs, rhs]
  | ref name => [name]
  | call kind callee args => if kind = .external then args else callee :: args
  | tuple elements => elements
  | field source _ => [source]
  | arrayMake size element => [size, element]
  | arrayLit elements => elements
  | arrayGet array index => [array, index]
  | arraySet array index value => [array, index, value]
  | arrayLen array => [array]
  | some element => [element]
  | isSome option => [option]
  | unwrap option => [option]
  | closure captures _ => captures

def mapOperands (change : String → String) : Op → Op
  | nop => .nop
  | const value => .const value
  | unary op operand => .unary op (change operand)
  | binary op lhs rhs => .binary op (change lhs) (change rhs)
  | ref name => .ref (change name)
  | external name => .external name
  | call kind callee args =>
    .call kind (if kind = .external then callee else change callee) (args.map change)
  | tuple elements => .tuple (elements.map change)
  | field source index => .field (change source) index
  | arrayMake size element => .arrayMake (change size) (change element)
  | arrayLit elements => .arrayLit (elements.map change)
  | arrayGet array index => .arrayGet (change array) (change index)
  | arraySet array index value => .arraySet (change array) (change index) (change value)
  | arrayLen array => .arrayLen (change array)
  | some element => .some (change element)
  | none => .none
  | isSome option => .isSome (change option)
  | unwrap option => .unwrap (change option)
  | closure captures function => .closure (captures.map change) function

theorem operands_mapOperands (change : String → String) (op : Op) :
    (op.mapOperands change).operands = op.operands.map change := by
  cases op with
  | call kind callee args =>
    by_cases external : kind = .external <;> simp [mapOperands, operands, external]
  | _ => simp [mapOperands, operands]

def joined (names : List String) : String := ",".intercalate names

def constText : Literal → String
  | .unit => "unit"
  | .bool value => "bool " ++ toString value
  | .int value => "int " ++ toString value
  | .float value => "float " ++ value.fixed 6
  | .string value => "string " ++ quoted value

def text : Op → String
  | nop => "nop"
  | const value => constText value
  | unary op operand => "unary " ++ op.symbol ++ " " ++ operand
  | binary op lhs rhs => "binary " ++ op.symbol ++ " " ++ lhs ++ " " ++ rhs
  | ref name => "ref " ++ name
  | external name => "xref " ++ name
  | call kind callee args => "app" ++ kind.mark ++ " " ++ callee ++ " " ++ joined args
  | tuple elements => "tuple " ++ joined elements
  | field source index => "tplload " ++ toString index ++ " " ++ source
  | arrayMake size element => "array " ++ size ++ " " ++ element
  | arrayLit elements => "arrlit " ++ joined elements
  | arrayGet array index => "arrload " ++ index ++ " " ++ array
  | arraySet array index value => "arrstore " ++ index ++ " " ++ array ++ " " ++ value
  | arrayLen array => "arrlen " ++ array
  | some element => "some " ++ element
  | none => "none"
  | isSome option => "issome " ++ option
  | unwrap option => "derefsome " ++ option
  | closure captures function => "makecls (" ++ joined captures ++ ") " ++ function

end Op

end MiddleEnd
