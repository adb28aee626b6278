import MiddleEnd.Typing.Close
import MiddleEnd.Typing.Comparison

/-! Type checking of whole programs. -/

namespace MiddleEnd

def Inference.close (state : Inference) (program : Resolved) (body : TypedExpr) :
    Except Stop Typed := do
  let store := state.settle body
  let body ← Close.expr store body
  let externals ← Close.externals store program state.externals.entries
  return { body, externals := ⟨externals⟩ }

def Resolved.check (program : Resolved) (settings : Settings) : Except Stop Typed := do
  let externals := if settings.seedBuiltins then builtinExternals else .empty
  let (body, state) ← (Infer.program program).run { externals }
  let typed ← state.close program body
  typed.body.checkComparisons
  return typed

end MiddleEnd
