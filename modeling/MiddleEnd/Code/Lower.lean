import MiddleEnd.Code.Printer

/-! From expressions to blocks: every part of an expression gets an instruction of its own, in the
order of evaluation. -/

namespace MiddleEnd

/-- Instructions that compute a value; the last one holds it. -/
structure Run where
  front : Code
  last : Instr Block

def Run.all (run : Run) : Code := run.front ++ [run.last]

def Run.after (run : Run) (front : Code) : Run := { run with front := front ++ run.front }

def Run.name (run : Run) : String := run.last.name

/-- What lowering has handed out so far. -/
structure Lowering where
  temporaries : Nat := 0
  instructions : Nat := 0
  table : TypeTable

abbrev LowerM := StateT Lowering (Except Fault)

namespace Lower

def temporary : LowerM String := do
  let state ← get
  set { state with temporaries := state.temporaries + 1 }
  return "$" ++ toString (state.temporaries + 1)

def setType (name : String) (type : Ty) : LowerM Unit :=
  modify fun state => { state with table := state.table.insert name type }

def instruction (name : String) (span : Span) (value : Value Block) : LowerM (Instr Block) := do
  let state ← get
  set { state with instructions := state.instructions + 1 }
  return ⟨state.instructions, name, span, value⟩

def emit (front : Code) (note : Note) (value : Value Block) : LowerM Run := do
  let name ← temporary
  setType name note.type
  return ⟨front, ← instruction name note.span value⟩

/-- Gives the name of a binding to the instruction that holds the bound value. Its type moves
along. -/
def rename (run : Run) (name : String) : LowerM Run := do
  let state ← get
  match state.table.find? run.name with
  | none => pure ()
  | some type =>
    set { state with table := (state.table.erase run.name).insert name type }
  return { run with last := { run.last with name } }

def fields (source : String) (index : Nat) :
    List (Binder Bound Annotation) → List Ty → LowerM Code
  | binder :: binders, type :: types => do
    let symbol := binder.name.symbol
    setType symbol.name type
    let load ← instruction symbol.name symbol.span (.op (.field source index))
    return load :: (← fields source (index + 1) binders types)
  | _, _ => return []

mutual
def expr : TypedExpr → LowerM Run
  | .lit note value => emit [] note (.op (.const value))
  | .var note use =>
    match use.target with
    | .bound symbol => emit [] note (.op (.ref symbol.name))
    | .external name => emit [] note (.op (.external name))
  | .unary note op operand => do
    let operand ← expr operand
    emit operand.all note (.op (.unary op operand.name))
  | .binary note op lhs rhs => do
    let lhs ← expr lhs
    let rhs ← expr rhs
    emit (lhs.all ++ rhs.all) note (.op (.binary op lhs.name rhs.name))
  | .cond note test yes no => do
    let test ← expr test
    let yes ← expr yes
    let no ← expr no
    emit test.all note (.branch test.name (.mk "then" yes.all) (.mk "else" no.all))
  | .letIn _ binder bound body => do
    let bound ← rename (← expr bound) binder.name.symbol.name
    let body ← expr body
    return body.after bound.all
  | .letRec _ name params _ body rest => do
    let body ← expr body
    let label := name.symbol.name
    let value : Value Block :=
      .function (params.map fun param => param.name.symbol.name)
        (.mk ("body (" ++ label ++ ")") body.all) false
    let function ← instruction label name.symbol.span value
    let rest ← expr rest
    return rest.after [function]
  | .letTuple _ binders bound body => do
    let source ← expr bound
    match bound.type with
    | .tuple types =>
      let loads ← fields source.name 0 binders types
      let body ← expr body
      return body.after (source.all ++ loads)
    | _ => throw (.notTuple source.name)
  | .apply note callee args => do
    let callee ← expr callee
    let (front, names) ← exprs args
    emit (callee.all ++ front) note (.op (.call .direct callee.name names))
  | .tuple note elements => do
    let (front, names) ← exprs elements
    emit front note (.op (.tuple names))
  | .arrayMake note size element => do
    let size ← expr size
    let element ← expr element
    emit (size.all ++ element.all) note (.op (.arrayMake size.name element.name))
  | .arrayLit note elements => do
    let (front, names) ← exprs elements
    emit front note (.op (.arrayLit names))
  | .arrayLen note array => do
    let array ← expr array
    emit array.all note (.op (.arrayLen array.name))
  | .arrayGet note array index => do
    let array ← expr array
    let index ← expr index
    emit (array.all ++ index.all) note (.op (.arrayGet array.name index.name))
  | .arraySet note array index value => do
    let array ← expr array
    let index ← expr index
    let value ← expr value
    emit (array.all ++ index.all ++ value.all) note
      (.op (.arraySet array.name index.name value.name))
  | .some note element => do
    let element ← expr element
    emit element.all note (.op (.some element.name))
  | .none note => emit [] note (.op .none)
  | .matchOption note target binder someArm noneArm => do
    let source ← expr target
    match target.type with
    | .app .option element =>
      let test ← temporary
      setType test .bool
      let check ← instruction test target.span (.op (.isSome source.name))
      let someArm ← expr someArm
      let symbol := binder.name.symbol
      setType symbol.name element
      let content ← instruction symbol.name symbol.span (.op (.unwrap source.name))
      let noneArm ← expr noneArm
      emit (source.all ++ [check]) note
        (.branch test (.mk "then" (content :: someArm.all)) (.mk "else" noneArm.all))
    | _ => throw (.notOption source.name)
  | .typed _ child _ => expr child
def exprs : List TypedExpr → LowerM (Code × List String)
  | [] => return ([], [])
  | first :: rest => do
    let first ← expr first
    let (front, names) ← exprs rest
    return (first.all ++ front, first.name :: names)
end

end Lower

/-- A block with the types of all names in it. Functions still stand where they were defined. -/
structure Module where
  entry : Block
  table : TypeTable

def Module.dump (module : Module) : Except Fault String := module.entry.dump module.table

def Typed.lower (program : Typed) : Except Fault Module := do
  let (run, state) ← (Lower.expr program.body).run { table := program.table }
  return { entry := .mk "program" run.all, table := state.table }

end MiddleEnd
