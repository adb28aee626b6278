import MiddleEnd.Span
import MiddleEnd.Terminal

/-! Source texts. Positions are byte offsets; rows and columns start at one. -/

namespace MiddleEnd

inductive Origin where
  | memory
  | file (path : String)

def Origin.text : Origin → String
  | .memory => "<memory>"
  | .file path => path

structure Source where
  text : String
  origin : Origin := .memory

def byteLength : List Char → Nat
  | [] => 0
  | c :: cs => c.utf8Size + byteLength cs

def splitAtByte : Nat → List Char → Option (List Char × List Char)
  | 0, cs => some ([], cs)
  | _ + 1, [] => none
  | n + 1, c :: cs =>
    if c.utf8Size ≤ n + 1 then
      (splitAtByte (n + 1 - c.utf8Size) cs).map (fun (before, after) => (c :: before, after))
    else none

def newlinesBefore : Nat → List Char → Nat
  | 0, _ => 0
  | _ + 1, [] => 0
  | n + 1, c :: cs => (if c = '\n' then 1 else 0) + newlinesBefore (n + 1 - c.utf8Size) cs

def lastLine (cs : List Char) : List Char := (cs.reverse.takeWhile (· ≠ '\n')).reverse

def firstLine (cs : List Char) : List Char := cs.takeWhile (· ≠ '\n')

namespace Source

def chars (source : Source) : List Char := source.text.toList

def size (source : Source) : Nat := byteLength source.chars

def clamp (source : Source) (position : Nat) : Nat := min position source.size

def cut? (source : Source) (position : Nat) : Option (List Char × List Char) :=
  splitAtByte (source.clamp position) source.chars

def row (source : Source) (position : Nat) : Nat := newlinesBefore position source.chars + 1

def column? (source : Source) (position : Nat) : Option Nat :=
  (source.cut? position).map (fun (before, _) => byteLength (lastLine before) + 1)

def value (source : Source) (span : Span) : String :=
  let stop := source.clamp span.stop
  if stop < span.start then ""
  else
    match splitAtByte stop source.chars with
    | none => ""
    | some (before, _) =>
      match splitAtByte span.start before with
      | none => ""
      | some (_, inside) => String.ofList inside

def position? (source : Source) (span : Span) : Option String :=
  (source.column? span.start).map fun column =>
    source.origin.text ++ ":" ++ toString (source.row span.start) ++ ":" ++ toString column

def spaces (n : Nat) : String := String.ofList (List.replicate n ' ')

/-- The line in which a span starts, and the bytes before and under the underlined part of it.
`none` if the span starts inside a character or, cut to the line, ends before it starts. -/
def excerpt? (source : Source) (span : Span) : Option (List Char × Nat × Nat) :=
  (source.cut? span.start).bind fun (before, after) =>
    let lead := lastLine before
    let line := lead ++ firstLine after
    let start := byteLength before - byteLength lead
    let clampToLine (position : Nat) := min (position - start) (byteLength line)
    if clampToLine span.stop < clampToLine span.start then none
    else some (line, clampToLine span.start, clampToLine span.stop - clampToLine span.start)

def highlight? (source : Source) (terminal : Terminal) (span : Span) : Option String :=
  (source.excerpt? span).map fun (line, indent, width) =>
    let row := toString (source.row span.start)
    let gutter := spaces row.length
    let bar := terminal.paint .blue "|"
    let carets := String.ofList (List.replicate (max width 1) '^')
    gutter ++ " " ++ bar ++ "\n" ++
      terminal.paint .blue row ++ " " ++ bar ++ " " ++ String.ofList line ++ "\n" ++
      gutter ++ " " ++ bar ++ " " ++ spaces indent ++ terminal.paint .red carets

end Source

end MiddleEnd
