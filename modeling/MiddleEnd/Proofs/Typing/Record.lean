import MiddleEnd.Proofs.Typing.Calls

/-! Inference with a record of the stores it goes through. Without the record it is inference, step
by step; an error leaves the record of what came before it. -/

namespace MiddleEnd

variable {state later : Inference} {before : List Moment}

/-- A point of inference: an attempt to unify two types has been made, or a type was generalized. -/
structure Moment where
  store : Store
  /-- The variables that have just become placeholders. -/
  frozen : List Nat := []
  /-- Whether annotations of the same pattern are still to be held against other parts. -/
  pending : Bool := false

def RecordM (α : Type) : Type := Inference → List Moment × Except Stop (α × Inference)

namespace RecordM

variable {α β : Type}

instance : Monad RecordM where
  pure value state := ([], .ok (value, state))
  bind computation rest state :=
    match computation state with
    | (before, .ok (value, later)) => (before ++ (rest value later).1, (rest value later).2)
    | (before, .error stop) => (before, .error stop)

/-- The computation without its record. -/
def plain (computation : RecordM α) : InferM α := fun state => (computation state).2

def quiet (computation : InferM α) : RecordM α := fun state => ([], computation.run state)

theorem bind_of_ok {computation : RecordM α} {rest : α → RecordM β} {value : α}
    (run : computation state = (before, .ok (value, later))) :
    (computation >>= rest) state = (before ++ (rest value later).1, (rest value later).2) := by
  simp only [bind, run]

theorem bind_of_error {computation : RecordM α} {rest : α → RecordM β} {stop : Stop}
    (run : computation state = (before, .error stop)) :
    (computation >>= rest) state = (before, .error stop) := by
  simp only [bind, run]

theorem pure_bind (value : α) (rest : α → RecordM β) : (pure value >>= rest) = rest value := rfl

theorem bind_pure_fst (computation : RecordM α) (pack : α → β) (state : Inference) :
    ((computation >>= fun value => pure (pack value)) state).1 = (computation state).1 := by
  rcases run : computation state with ⟨before, stop | ⟨value, later⟩⟩
  · rw [bind_of_error run]
  · rw [bind_of_ok run]
    exact List.append_nil before

theorem bind_pure_run {computation : RecordM α} {pack : α → β} {packed : β}
    (run : ((computation >>= fun value => pure (pack value)) state).2 = .ok (packed, later)) :
    ∃ value, (computation state).2 = .ok (value, later) := by
  rcases first : computation state with ⟨before, stop | ⟨value, middle⟩⟩
  · rw [bind_of_error first] at run
    cases run
  · rw [bind_of_ok first] at run
    cases run
    exact ⟨value, rfl⟩

theorem quiet_bind (computation : InferM α) (rest : α → InferM β) :
    quiet (computation >>= rest) = quiet computation >>= fun value => quiet (rest value) := by
  funext state
  change (([], computation.run state >>= fun (value, later) => (rest value).run later) :
    List Moment × Except Stop (β × Inference)) = _
  cases run : computation.run state with
  | error stop =>
    have quiet_run : quiet computation state = ([], .error stop) := congrArg (Prod.mk []) run
    rw [bind_of_error quiet_run]
    rfl
  | ok outcome =>
    have quiet_run : quiet computation state = ([], .ok outcome) := congrArg (Prod.mk []) run
    rw [bind_of_ok quiet_run]
    rfl

@[simp] theorem plain_quiet (computation : InferM α) : (quiet computation).plain = computation := rfl

@[simp] theorem plain_pure (value : α) : (pure value : RecordM α).plain = pure value := rfl

@[simp] theorem plain_bind (computation : RecordM α) (rest : α → RecordM β) :
    (computation >>= rest).plain = computation.plain >>= fun value => (rest value).plain := by
  funext state
  change ((computation >>= rest) state).2 =
    (computation state).2 >>= fun (value, later) => (rest value later).2
  rcases run : computation state with ⟨before, stop | ⟨value, later⟩⟩
  · rw [bind_of_error run]
    rfl
  · rw [bind_of_ok run]
    rfl

end RecordM

namespace Record

open RecordM

def unify (left right : Ty) (span : Span) : RecordM Unit := fun state =>
  ([{ store := (state.store.unify left right).1 }], (Infer.unify left right span).run state)

def generalize (level : Nat) (type : Ty) (pending : Bool) : RecordM Ty := fun state =>
  let deeper (n : Nat) : Bool := level < state.store.level n
  ([{ store := (state.store.generalize level type).1,
      frozen := (state.store.expand type).vars.filter deeper, pending }],
    (Infer.generalize level type).run state)

def checkHint (ctx : Context) (level : Nat) (hint : Option Annotation) (type : Ty)
    (span : Span) : RecordM Unit := do
  match hint with
  | none => return
  | some hint => unify (← quiet (Infer.annotated ctx.aliases level hint)) type span

def parameters (ctx : Context) (level : Nat) :
    List (Binder Symbol Annotation) → RecordM (List (Binder Bound Annotation))
  | [] => return []
  | param :: params => do
    let type ← quiet (Infer.fresh level)
    checkHint ctx level param.hint type param.name.span
    return ⟨⟨param.name, type⟩, param.hint⟩ :: (← parameters ctx level params)

def signature (ctx : Context) (level : Nat) (params : List (Binder Symbol Annotation))
    (result : Option Annotation) : RecordM (List (Binder Bound Annotation) × Ty) := do
  let params ← parameters ctx level params
  let returned ← quiet (Infer.fresh level)
  checkHint ctx level result returned ((result.map Annotation.span).getD default)
  return (params, returned)

def elements (ctx : Context) (level : Nat) :
    List (Binder Symbol Annotation) → List Ty → RecordM (List (Binder Bound Annotation))
  | binder :: binders, type :: types => do
    checkHint ctx (level + 1) binder.hint type binder.name.span
    let scheme ← generalize level type (binders.any fun other => other.hint.isSome)
    return ⟨⟨binder.name, scheme⟩, binder.hint⟩ :: (← elements ctx level binders types)
  | _, _ => return []

mutual
def expr (ctx : Context) (level : Nat) :
    Expr Symbol Reference Annotation Span → RecordM TypedExpr
  | .lit span value => return .lit ⟨span, value.ty⟩ value
  | .var span ref => do
    let (type, use) ← quiet (Infer.use ctx level ref)
    return .var ⟨span, type⟩ use
  | .unary span op operand => do
    let operand ← expr ctx level operand
    unify op.operand operand.type operand.span
    return .unary ⟨span, op.operand⟩ op operand
  | .binary span op lhs rhs => do
    let lhs ← expr ctx level lhs
    let rhs ← expr ctx level rhs
    match op.operand? with
    | some operand =>
      unify operand lhs.type lhs.span
      unify operand rhs.type rhs.span
      return .binary ⟨span, operand⟩ op lhs rhs
    | none =>
      unify lhs.type rhs.type span
      return .binary ⟨span, .bool⟩ op lhs rhs
  | .cond span test yes no => do
    let test ← expr ctx level test
    unify .bool test.type test.span
    let yes ← expr ctx level yes
    let no ← expr ctx level no
    unify yes.type no.type span
    return .cond ⟨span, yes.type⟩ test yes no
  | .letIn span binder bound body => do
    let bound ← expr ctx (level + 1) bound
    checkHint ctx (level + 1) binder.hint bound.type binder.name.span
    let scheme ← generalize level bound.type false
    let body ← expr (ctx.bind binder.name scheme) level body
    return .letIn ⟨span, body.type⟩ ⟨⟨binder.name, scheme⟩, binder.hint⟩ bound body
  | .letRec span name params result body rest => do
    let (params, returned) ← signature ctx (level + 1) params result
    let type := Bound.function params returned
    let body ← expr ((ctx.bindAll params).bind name type) (level + 1) body
    unify returned body.type body.span
    let scheme ← generalize level type false
    let rest ← expr (ctx.bind name scheme) level rest
    return .letRec ⟨span, rest.type⟩ ⟨name, scheme⟩ params result body rest
  | .letTuple span binders bound body => do
    let bound ← expr ctx (level + 1) bound
    let types ← quiet (Infer.freshAll (level + 1) binders.length)
    unify bound.type (.tuple types) bound.span
    let binders ← elements ctx level binders types
    let body ← expr (ctx.bindAll binders) level body
    return .letTuple ⟨span, body.type⟩ binders bound body
  | .apply span callee args => do
    let callee ← expr ctx level callee
    let args ← exprs ctx level args
    let returned ← quiet (Infer.fresh level)
    unify callee.type (.function (args.map Expr.type) returned) span
    return .apply ⟨span, returned⟩ callee args
  | .tuple span elements => do
    let elements ← exprs ctx level elements
    return .tuple ⟨span, .tuple (elements.map Expr.type)⟩ elements
  | .arrayMake span size element => do
    let size ← expr ctx level size
    unify .int size.type size.span
    let element ← expr ctx level element
    return .arrayMake ⟨span, .array element.type⟩ size element
  | .arrayLit span [] => return .arrayLit ⟨span, .array (← quiet (Infer.freshEmpty level))⟩ []
  | .arrayLit span (first :: rest) => do
    let first ← expr ctx level first
    let rest ← alike ctx level first.type rest
    return .arrayLit ⟨span, .array first.type⟩ (first :: rest)
  | .arrayLen span array => do
    let array ← expr ctx level array
    unify (.array (← quiet (Infer.fresh level))) array.type array.span
    return .arrayLen ⟨span, .int⟩ array
  | .arrayGet span array index => do
    let array ← expr ctx level array
    let element ← quiet (Infer.fresh level)
    unify (.array element) array.type array.span
    let index ← expr ctx level index
    unify .int index.type index.span
    return .arrayGet ⟨span, element⟩ array index
  | .arraySet span array index value => do
    let array ← expr ctx level array
    let element ← quiet (Infer.fresh level)
    unify (.array element) array.type array.span
    let index ← expr ctx level index
    unify .int index.type index.span
    let value ← expr ctx level value
    unify element value.type value.span
    return .arraySet ⟨span, .unit⟩ array index value
  | .some span element => do
    let element ← expr ctx level element
    return .some ⟨span, .option element.type⟩ element
  | .none span => return .none ⟨span, .option (← quiet (Infer.freshEmpty level))⟩
  | .matchOption span target binder someArm noneArm => do
    let target ← expr ctx level target
    let element ← quiet (Infer.fresh level)
    unify (.option element) target.type target.span
    checkHint ctx level binder.hint element binder.name.span
    let someArm ← expr (ctx.bind binder.name element) level someArm
    let noneArm ← expr ctx level noneArm
    unify someArm.type noneArm.type span
    return .matchOption ⟨span, someArm.type⟩ target ⟨⟨binder.name, element⟩, binder.hint⟩
      someArm noneArm
  | .typed span child hint => do
    let child ← expr ctx level child
    unify (← quiet (Infer.annotated ctx.aliases level hint)) child.type span
    return .typed ⟨span, child.type⟩ child hint
def exprs (ctx : Context) (level : Nat) :
    List (Expr Symbol Reference Annotation Span) → RecordM (List TypedExpr)
  | [] => return []
  | first :: rest => do
    let first ← expr ctx level first
    return first :: (← exprs ctx level rest)
def alike (ctx : Context) (level : Nat) (type : Ty) :
    List (Expr Symbol Reference Annotation Span) → RecordM (List TypedExpr)
  | [] => return []
  | first :: rest => do
    let first ← expr ctx level first
    unify type first.type first.span
    return first :: (← alike ctx level type rest)
end

/-- Aliases and declarations make variables only, so the record is that of the body. -/
def program (program : Resolved) : RecordM TypedExpr := do
  let types ← quiet (Infer.prelude program)
  expr { aliases := types } 0 program.body

/-! ### Inference without the record -/

theorem plain_unify (left right : Ty) (span : Span) :
    (unify left right span).plain = Infer.unify left right span :=
  rfl

theorem plain_generalize (level : Nat) (type : Ty) (pending : Bool) :
    (generalize level type pending).plain = Infer.generalize level type :=
  rfl

theorem plain_checkHint (ctx : Context) (level : Nat) (hint : Option Annotation) (type : Ty)
    (span : Span) :
    (checkHint ctx level hint type span).plain = Infer.checkHint ctx level hint type span := by
  cases hint with
  | none => rfl
  | some _ =>
    rw [checkHint, Infer.checkHint, plain_bind, plain_quiet]
    rfl

theorem plain_parameters (ctx : Context) (level : Nat) (params : List (Binder Symbol Annotation)) :
    (parameters ctx level params).plain = Infer.parameters ctx level params := by
  induction params with
  | nil => rfl
  | cons _ _ ih =>
    simp only [parameters, Infer.parameters, plain_bind, plain_quiet, plain_checkHint, ih, plain_pure]

theorem plain_signature (ctx : Context) (level : Nat) (params : List (Binder Symbol Annotation))
    (result : Option Annotation) :
    (signature ctx level params result).plain = Infer.signature ctx level params result := by
  simp only [signature, Infer.signature, plain_bind, plain_parameters, plain_quiet, plain_checkHint, plain_pure]

theorem plain_elements (ctx : Context) (level : Nat) (binders : List (Binder Symbol Annotation))
    (types : List Ty) :
    (elements ctx level binders types).plain = Infer.elements ctx level binders types := by
  induction binders generalizing types with
  | nil => rfl
  | cons _ _ ih =>
    cases types with
    | nil => rfl
    | cons _ _ =>
      simp only [elements, Infer.elements, plain_bind, plain_checkHint, plain_generalize, ih, plain_pure]

mutual
theorem plain_expr (ctx : Context) (level : Nat) :
    (source : Term) → (expr ctx level source).plain = Infer.expr ctx level source
  | .lit _ _ => rfl
  | .var _ _ => by simp only [expr, Infer.expr, plain_bind, plain_quiet, plain_pure]
  | .unary _ _ operand => by
    simp only [expr, Infer.expr, plain_bind, plain_expr _ _ operand, plain_unify, plain_pure]
  | .binary _ op lhs rhs => by
    simp only [expr, Infer.expr, plain_bind, plain_expr _ _ lhs, plain_expr _ _ rhs]
    cases op.operand? <;> simp only [plain_bind, plain_unify, plain_pure]
  | .cond _ test yes no => by
    simp only [expr, Infer.expr, plain_bind, plain_expr _ _ test, plain_expr _ _ yes, plain_expr _ _ no,
      plain_unify, plain_pure]
  | .letIn _ _ bound body => by
    simp only [expr, Infer.expr, plain_bind, plain_expr _ _ bound, plain_expr _ _ body, plain_checkHint,
      plain_generalize, plain_pure]
  | .letRec _ _ _ _ body rest => by
    simp only [expr, Infer.expr_letRec, plain_bind, plain_expr _ _ body, plain_expr _ _ rest, plain_signature,
      plain_unify, plain_generalize, plain_pure]
  | .letTuple _ _ bound body => by
    simp only [expr, Infer.expr, plain_bind, plain_expr _ _ bound, plain_expr _ _ body, plain_quiet,
      plain_unify, plain_elements, plain_pure]
  | .apply _ callee args => by
    simp only [expr, Infer.expr, plain_bind, plain_expr _ _ callee, plain_exprs _ _ args, plain_quiet,
      plain_unify, plain_pure]
  | .tuple _ elements => by simp only [expr, Infer.expr, plain_bind, plain_exprs _ _ elements, plain_pure]
  | .arrayMake _ size element => by
    simp only [expr, Infer.expr, plain_bind, plain_expr _ _ size, plain_expr _ _ element, plain_unify,
      plain_pure]
  | .arrayLit _ [] => by simp only [expr, Infer.expr, plain_bind, plain_quiet, plain_pure]
  | .arrayLit _ (first :: rest) => by
    simp only [expr, Infer.expr, plain_bind, plain_expr _ _ first, plain_alike _ _ _ rest, plain_pure]
  | .arrayLen _ array => by
    simp only [expr, Infer.expr, plain_bind, plain_expr _ _ array, plain_quiet, plain_unify, plain_pure]
  | .arrayGet _ array index => by
    simp only [expr, Infer.expr, plain_bind, plain_expr _ _ array, plain_expr _ _ index, plain_quiet,
      plain_unify, plain_pure]
  | .arraySet _ array index value => by
    simp only [expr, Infer.expr, plain_bind, plain_expr _ _ array, plain_expr _ _ index, plain_expr _ _ value,
      plain_quiet, plain_unify, plain_pure]
  | .some _ element => by simp only [expr, Infer.expr, plain_bind, plain_expr _ _ element, plain_pure]
  | .none _ => by simp only [expr, Infer.expr, plain_bind, plain_quiet, plain_pure]
  | .matchOption _ target _ someArm noneArm => by
    simp only [expr, Infer.expr, plain_bind, plain_expr _ _ target, plain_expr _ _ someArm,
      plain_expr _ _ noneArm, plain_quiet, plain_unify, plain_checkHint, plain_pure]
  | .typed _ child _ => by
    simp only [expr, Infer.expr, plain_bind, plain_expr _ _ child, plain_quiet, plain_unify, plain_pure]
theorem plain_exprs (ctx : Context) (level : Nat) :
    (sources : List Term) → (exprs ctx level sources).plain = Infer.exprs ctx level sources
  | [] => rfl
  | first :: rest => by
    simp only [exprs, Infer.exprs, plain_bind, plain_expr _ _ first, plain_exprs _ _ rest, plain_pure]
theorem plain_alike (ctx : Context) (level : Nat) (type : Ty) :
    (sources : List Term) → (alike ctx level type sources).plain = Infer.alike ctx level type sources
  | [] => rfl
  | first :: rest => by
    simp only [alike, Infer.alike, plain_bind, plain_expr _ _ first, plain_alike _ _ _ rest, plain_unify,
      plain_pure]
end

theorem plain_program (source : Resolved) : (program source).plain = Infer.program source := by
  rw [program, Infer.program_eq, plain_bind, plain_quiet]
  simp only [plain_expr]

end Record

end MiddleEnd
