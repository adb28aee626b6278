import MiddleEnd.Code.Block
import MiddleEnd.NameMap

/-! Which functions need a closure, and what it holds. A function is known if it reads nothing from
around it and is never used as a value: then it can be called by its label. -/

namespace MiddleEnd

structure Captures where
  /-- The names held by the closure of each function that needs one. -/
  closures : NameMap (List String)
  known : List String
  /-- The functions that are used as values inside their own bodies. -/
  selfReferenced : List String

structure Definition where
  name : String
  params : List String
  body : Block

namespace Op

def values : Op → List String
  | call _ _ args => args
  | op => op.operands

def reads (known : List String) : Op → List String
  | call kind callee args =>
    if kind = .external || known.contains callee then args else callee :: args
  | op => op.operands

end Op

namespace Code

mutual
def blockValues : Block → List String
  | .mk _ body => values body
def values : List (Instr Block) → List String
  | [] => []
  | ⟨_, _, _, .op op⟩ :: rest => op.values ++ values rest
  | ⟨_, _, _, .branch test yes no⟩ :: rest =>
    test :: (blockValues yes ++ blockValues no ++ values rest)
  | ⟨_, _, _, .function _ body _⟩ :: rest => blockValues body ++ values rest
end

mutual
def blockSelfValues (enclosing : List String) : Block → List String
  | .mk _ body => selfValues enclosing body
def selfValues (enclosing : List String) : List (Instr Block) → List String
  | [] => []
  | ⟨_, _, _, .op op⟩ :: rest => op.values.filter enclosing.contains ++ selfValues enclosing rest
  | ⟨_, _, _, .branch test yes no⟩ :: rest =>
    [test].filter enclosing.contains ++ blockSelfValues enclosing yes ++
      blockSelfValues enclosing no ++ selfValues enclosing rest
  | ⟨_, name, _, .function _ body _⟩ :: rest =>
    blockSelfValues (name :: enclosing) body ++ selfValues enclosing rest
end

mutual
def blockDefinitions : Block → List Definition
  | .mk _ body => definitions body
def definitions : List (Instr Block) → List Definition
  | [] => []
  | ⟨_, _, _, .op _⟩ :: rest => definitions rest
  | ⟨_, _, _, .branch _ yes no⟩ :: rest =>
    blockDefinitions yes ++ blockDefinitions no ++ definitions rest
  | ⟨_, name, _, .function params body _⟩ :: rest =>
    blockDefinitions body ++ ⟨name, params, body⟩ :: definitions rest
end

mutual
def blockFree (known : List String) (captures : NameMap (List String)) : Block → List String
  | .mk _ body => free known captures body
/-- The names that are read and not defined before. A function that is not known reads what its
closure captures; a known one reads nothing. -/
def free (known : List String) (captures : NameMap (List String)) :
    List (Instr Block) → List String
  | [] => []
  | ⟨_, name, _, .op op⟩ :: rest =>
    (op.reads known ++ free known captures rest).filter (· != name)
  | ⟨_, name, _, .branch test yes no⟩ :: rest =>
    (test :: (blockFree known captures yes ++ blockFree known captures no ++
      free known captures rest)).filter (· != name)
  | ⟨_, name, _, .function _ _ _⟩ :: rest =>
    ((if known.contains name then [] else (captures.find? name).getD []) ++
      free known captures rest).filter (· != name)
end

end Code

def Definition.captures (definition : Definition) (known : List String)
    (captures : NameMap (List String)) : List String :=
  nameSet ((Code.blockFree known captures definition.body).filter fun name =>
    !definition.params.contains name && name != definition.name)

/-- Functions that are still taken to be known, and what each one captures if they are. -/
structure Classification where
  known : List String
  captures : NameMap (List String) := .empty

namespace Classification

def update (state : Classification) (definition : Definition) : Classification :=
  let captures := definition.captures state.known state.captures
  { known := if captures.isEmpty then state.known else state.known.filter (· != definition.name)
    captures := state.captures.insert definition.name captures }

def round (definitions : List Definition) (state : Classification) : Classification :=
  definitions.foldl update state

def rounds (definitions : List Definition) : Nat → Classification → Classification
  | 0, state => state
  | fuel + 1, state =>
    let next := round definitions state
    if next.known.length = state.known.length then next else rounds definitions fuel next

end Classification

/-- Classifies the functions of a block. What is not used as a value is known at first. A function
that stops being known can only add captures to those around it, and each round but the last finds
one, so there are at most one more rounds than functions. -/
def Block.captures (block : Block) : Captures :=
  let escaping := Code.blockValues block
  let definitions := Code.blockDefinitions block
  let names := nameSet (definitions.map Definition.name)
  let start : Classification := { known := names.filter (fun name => !escaping.contains name) }
  let final := Classification.rounds definitions (definitions.length + 1) start
  { closures := ⟨final.captures.entries.filter fun entry => !final.known.contains entry.1⟩
    known := final.known
    selfReferenced := nameSet (Code.blockSelfValues [] block) }

end MiddleEnd
