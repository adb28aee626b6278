import MiddleEnd.Code.Op
import MiddleEnd.Span

/-! Blocks of instructions. Control flow is structured: the arms of a branch and the body of a
function are blocks that belong to the instruction. -/

namespace MiddleEnd

/-- What an instruction computes; `β` is what stands for its inner blocks. -/
inductive Value (β : Type) where
  | op (op : Op)
  | branch (test : String) (yes no : β)
  | function (params : List String) (body : β) (recursive : Bool)

namespace Value

variable {β γ : Type}

def operands : Value β → List String
  | op here => here.operands
  | branch test _ _ => [test]
  | function _ _ _ => []

def mapOperands (change : String → String) : Value β → Value β
  | op here => .op (here.mapOperands change)
  | branch test yes no => .branch (change test) yes no
  | function params body recursive => .function params body recursive

def blocks : Value β → List β
  | op _ => []
  | branch _ yes no => [yes, no]
  | function _ body _ => [body]

def isFunction : Value β → Bool
  | function _ _ _ => true
  | _ => false

def text : Value β → String
  | op here => here.text
  | branch test _ _ => "if " ++ test
  | function params _ recursive =>
    (if recursive then "rec" else "") ++ "fun " ++ Op.joined params

end Value

/-- An instruction gives a name to a value. Its number tells it from all others of the module. -/
structure Instr (β : Type) where
  id : Nat
  name : String
  span : Span
  value : Value β

inductive Block where
  | mk (name : String) (body : List (Instr Block))

abbrev Code := List (Instr Block)

namespace Block

def name : Block → String
  | mk name _ => name

def body : Block → Code
  | mk _ body => body

end Block

namespace Code

mutual
def blockSpans : Block → List (String × Span)
  | .mk _ body => spans body
def spans : List (Instr Block) → List (String × Span)
  | [] => []
  | ⟨_, name, span, .op _⟩ :: rest => (name, span) :: spans rest
  | ⟨_, name, span, .branch _ yes no⟩ :: rest =>
    (name, span) :: (blockSpans yes ++ blockSpans no ++ spans rest)
  | ⟨_, name, span, .function _ body _⟩ :: rest =>
    (name, span) :: (blockSpans body ++ spans rest)
end

end Code

end MiddleEnd
