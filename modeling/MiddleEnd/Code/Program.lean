import MiddleEnd.Code.Printer

/-! Programs without nested functions. -/

namespace MiddleEnd

structure Toplevel where
  params : List String
  body : Block
  recursive : Bool
  span : Span

/-- A closure converted program: its functions, the names held by each closure, and the block it
starts with. -/
structure Converted where
  toplevel : NameMap Toplevel
  closures : NameMap (List String)
  entry : Block

namespace Converted

def dumpToplevels (table : TypeTable) : List (String × Toplevel) → Except Fault String
  | [] => return ""
  | (name, function) :: rest => do
    let value : Value Block := .function function.params function.body function.recursive
    let line ← instructionLine table 0 name value
    let body ← function.body.print table 2
    return line ++ body ++ "\n" ++ (← dumpToplevels table rest)

def dump (program : Converted) (table : TypeTable) : Except Fault String := do
  let functions ← dumpToplevels table program.toplevel.sorted
  let closures := program.closures.sorted.map fun (name, captures) =>
    name ++ ":\t" ++ Op.joined captures ++ "\n"
  let entry ← program.entry.dump table
  return "[TOPLEVELS (" ++ toString program.toplevel.size ++ ")]\n" ++ functions ++
    "[CLOSURES (" ++ toString program.closures.size ++ ")]\n" ++ String.join closures ++
    "\n[ENTRY]\n" ++ entry

def spans (program : Converted) : List (String × Span) :=
  program.toplevel.sorted.flatMap
      (fun (name, function) => (name, function.span) :: Code.blockSpans function.body) ++
    Code.blockSpans program.entry

end Converted

end MiddleEnd
