import MiddleEnd.Fault
import MiddleEnd.Typing.Basic

/-! Comparisons that the run-time system can carry out. -/

namespace MiddleEnd

def Ty.isOrdered : Ty → Bool
  | .prim .int | .prim .float | .generic _ => true
  | _ => false

def Ty.hasEquality (type : Ty) : Bool :=
  !type.any fun
    | .function _ _ | .app .array _ => true
    | _ => false

def BinaryOp.accepts (op : BinaryOp) (type : Ty) : Bool :=
  match op.operatorClass with
  | .ordering => type.isOrdered
  | .equality => type.hasEquality
  | _ => true

structure Comparison where
  span : Span
  op : BinaryOp
  operand : Ty

def Comparison.problem (comparison : Comparison) : Problem :=
  .comparison comparison.op.symbol comparison.operand.print
    (comparison.op.operatorClass == .ordering)

namespace Expr

mutual
def comparisons : TypedExpr → List Comparison
  | lit _ _ | var _ _ | none _ => []
  | unary _ _ operand => operand.comparisons
  | binary here op lhs rhs =>
    lhs.comparisons ++ rhs.comparisons ++ [⟨here.span, op, lhs.note.type⟩]
  | cond _ test yes no => test.comparisons ++ yes.comparisons ++ no.comparisons
  | letIn _ _ bound body => bound.comparisons ++ body.comparisons
  | letRec _ _ _ _ body rest => body.comparisons ++ rest.comparisons
  | letTuple _ _ bound body => bound.comparisons ++ body.comparisons
  | apply _ callee args => callee.comparisons ++ comparisonsOf args
  | tuple _ elements => comparisonsOf elements
  | arrayMake _ size element => size.comparisons ++ element.comparisons
  | arrayLit _ elements => comparisonsOf elements
  | arrayLen _ array => array.comparisons
  | arrayGet _ array index => array.comparisons ++ index.comparisons
  | arraySet _ array index value =>
    array.comparisons ++ index.comparisons ++ value.comparisons
  | some _ element => element.comparisons
  | matchOption _ target _ someArm noneArm =>
    target.comparisons ++ someArm.comparisons ++ noneArm.comparisons
  | typed _ child _ => child.comparisons
def comparisonsOf : List TypedExpr → List Comparison
  | [] => []
  | expr :: exprs => expr.comparisons ++ comparisonsOf exprs
end

def checkComparisons (expr : TypedExpr) : Except Stop Unit :=
  match expr.comparisons.find? (fun here => !here.op.accepts here.operand) with
  | Option.none => return
  | Option.some here => throw (.rejected { problem := here.problem, span := here.span })

end Expr

end MiddleEnd
