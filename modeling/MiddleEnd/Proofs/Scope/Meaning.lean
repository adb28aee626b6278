import Mathlib.Algebra.GroupWithZero.Nat
import MiddleEnd.Proofs.Tree.Parts
import MiddleEnd.Scope.Resolve

/-! What names mean. The meaning of a name follows from the binders around it alone, and what is wrong
with a program is a list of problems in the order of the text; resolution finds the meanings, or reports
the first problem. -/

namespace MiddleEnd

open List

variable {N R H A α β : Type} {more : List Diagnostic} {value : α} {result : β}
  {computation : ResolveM α} {scopes : Scopes} {env : Environment} {names : List String}

/-! ### Meanings -/

def Environment := String → Option Symbol

namespace Environment

def empty : Environment := fun _ => none

def bind (env : Environment) (symbol : Symbol) : Environment := fun name =>
  if symbol.isWildcard = false ∧ name = symbol.display then some symbol else env name

def bindAll (env : Environment) (symbols : List Symbol) : Environment :=
  symbols.foldl bind env

/-- A name that means no binder is provided from outside. -/
def target (env : Environment) (name : String) : Target :=
  match env name with
  | some symbol => .bound symbol
  | none => .external name

end Environment

mutual
/-- A type in which each name of an alias is replaced by the place of the alias. -/
def TypeExpr.meaning (aliases : List String) : TypeExpr → Annotation
  | .hole span => .hole span
  | .named span name =>
    match Primitive.ofName? name.name with
    | some primitive => .prim span primitive
    | none => .synonym span (aliases.idxOf name.name)
  | .applied span name args =>
    match Constructor.ofName? name.name, TypeExpr.meanings aliases args with
    | some con, [arg] => .app span con arg
    | _, _ => .hole span
  | .tuple span elements => .tuple span (TypeExpr.meanings aliases elements)
  | .function span params result =>
    .function span (TypeExpr.meanings aliases params) (result.meaning aliases)
def TypeExpr.meanings (aliases : List String) : List TypeExpr → List Annotation
  | [] => []
  | type :: types => type.meaning aliases :: TypeExpr.meanings aliases types
end

def Binder.meaning (aliases : List String) (number : Nat) (binder : Binder Ident TypeExpr) :
    Binder Symbol Annotation :=
  ⟨⟨number, binder.name.name, binder.name.span⟩, binder.hint.map (TypeExpr.meaning aliases)⟩

def Binder.meanings (aliases : List String) (start : Nat) :
    List (Binder Ident TypeExpr) → List (Binder Symbol Annotation)
  | [] => []
  | binder :: binders => binder.meaning aliases start :: meanings aliases (start + 1) binders

namespace Expr

/-- How many binders an expression has. -/
def size {N R H A : Type} (expr : Expr N R H A) : Nat := expr.names.length

theorem names_eq (expr : Expr N R H A) : expr.names =
    match expr with
    | letIn _ binder bound body => bound.names ++ binder.name :: body.names
    | letRec _ name params _ body rest => name :: (params.map Binder.name ++ body.names ++ rest.names)
    | letTuple _ binders bound body => bound.names ++ binders.map Binder.name ++ body.names
    | matchOption _ target binder someArm noneArm =>
      target.names ++ binder.name :: (someArm.names ++ noneArm.names)
    | expr => expr.parts.flatMap fun part => part.2.names := by
  cases expr <;>
    simp [names, parts, events, between, eventsOf_eq, Event.name?, filterMap_events, names_events,
      name?_hints, filterMap_cons, Binder.events, flatMap_map]

theorem size_eq (expr : Expr N R H A) : expr.size =
    match expr with
    | letIn _ _ bound body => bound.size + 1 + body.size
    | letRec _ _ params _ body rest => 1 + params.length + body.size + rest.size
    | letTuple _ binders bound body => bound.size + binders.length + body.size
    | matchOption _ target _ someArm noneArm => target.size + 1 + someArm.size + noneArm.size
    | expr => (expr.parts.map fun part => part.2.size).sum := by
  rw [size, names_eq]
  cases expr <;> simp [size, parts, length_flatMap] <;> omega

mutual
/-- An expression with its names resolved. The binders are numbered from `start` on in depth-first
order, so the number of a binder is the number of those before it. -/
def meaning (aliases : List String) (env : Environment) (start : Nat) :
    Expr Ident Mention TypeExpr Span → Expr Symbol Reference Annotation Span
  | .lit span value => .lit span value
  | .var span mention => .var span ⟨env.target mention.ident.name, mention.order⟩
  | .unary span op operand => .unary span op (operand.meaning aliases env start)
  | .binary span op lhs rhs =>
    .binary span op (lhs.meaning aliases env start)
      (rhs.meaning aliases env (start + lhs.size))
  | .cond span test yes no =>
    .cond span (test.meaning aliases env start)
      (yes.meaning aliases env (start + test.size))
      (no.meaning aliases env (start + test.size + yes.size))
  | .letIn span binder bound body =>
    let binder := binder.meaning aliases (start + bound.size)
    .letIn span binder (bound.meaning aliases env start)
      (body.meaning aliases (env.bind binder.name) (start + bound.size + 1))
  | .letRec span name params result body rest =>
    let function : Symbol := ⟨start, name.name, name.span⟩
    let outer := env.bind function
    let params' := Binder.meanings aliases (start + 1) params
    let inside := start + 1 + params.length
    .letRec span function params' (result.map (TypeExpr.meaning aliases))
      (body.meaning aliases (outer.bindAll (params'.map Binder.name)) inside)
      (rest.meaning aliases outer (inside + body.size))
  | .letTuple span binders bound body =>
    let binders' := Binder.meanings aliases (start + bound.size) binders
    .letTuple span binders' (bound.meaning aliases env start)
      (body.meaning aliases (env.bindAll (binders'.map Binder.name))
        (start + bound.size + binders.length))
  | .apply span callee args =>
    .apply span (callee.meaning aliases env start)
      (meanings aliases env (start + callee.size) args)
  | .tuple span elements => .tuple span (meanings aliases env start elements)
  | .arrayMake span size' element =>
    .arrayMake span (size'.meaning aliases env start)
      (element.meaning aliases env (start + size'.size))
  | .arrayLit span elements => .arrayLit span (meanings aliases env start elements)
  | .arrayLen span array => .arrayLen span (array.meaning aliases env start)
  | .arrayGet span array index =>
    .arrayGet span (array.meaning aliases env start)
      (index.meaning aliases env (start + array.size))
  | .arraySet span array index value =>
    .arraySet span (array.meaning aliases env start)
      (index.meaning aliases env (start + array.size))
      (value.meaning aliases env (start + array.size + index.size))
  | .some span element => .some span (element.meaning aliases env start)
  | .none span => .none span
  | .matchOption span target binder someArm noneArm =>
    let binder := binder.meaning aliases (start + target.size)
    let inside := start + target.size + 1
    .matchOption span (target.meaning aliases env start) binder
      (someArm.meaning aliases (env.bind binder.name) inside)
      (noneArm.meaning aliases env (inside + someArm.size))
  | .typed span child type => .typed span (child.meaning aliases env start) (type.meaning aliases)
def meanings (aliases : List String) (env : Environment) (start : Nat) :
    List (Expr Ident Mention TypeExpr Span) → List (Expr Symbol Reference Annotation Span)
  | [] => []
  | expr :: exprs =>
    expr.meaning aliases env start :: meanings aliases env (start + expr.size) exprs
end

end Expr

def Alias.meanings (before : List String) : List (Alias TypeExpr) → List (Alias Annotation)
  | [] => []
  | first :: rest =>
    ⟨first.name, first.type.meaning before⟩ :: meanings (before ++ [first.name.name]) rest

def Surface.aliasNames (program : Surface) : List String :=
  program.aliases.map fun entry => entry.name.name

/-- A program with its names resolved. -/
def Surface.meaning (program : Surface) : Resolved where
  aliases := Alias.meanings [] program.aliases
  externals := program.externals.map fun entry =>
    ⟨entry.name, entry.type.meaning program.aliasNames, entry.linkName, entry.span⟩
  body := program.body.meaning program.aliasNames .empty 0

/-! ### Problems -/

/-- A problem with a name, if there is one. -/
def Ident.problem (ident : Ident) (problem : Problem) (wrong : Prop) [Decidable wrong] :
    List Diagnostic :=
  if wrong then [{ problem, span := ident.span }] else []

section

variable {ident : Ident} {problem : Problem} {wrong : Prop} [Decidable wrong]

theorem Ident.problem_pos (holds : wrong) :
    ident.problem problem wrong = [{ problem, span := ident.span }] :=
  if_pos holds

theorem Ident.problem_neg (fails : ¬wrong) : ident.problem problem wrong = [] := if_neg fails

end

mutual
/-- The names in a type that are unknown or wrongly applied. -/
def TypeExpr.problems (aliases : List String) : TypeExpr → List Diagnostic
  | .hole _ => []
  | .named _ name =>
    name.problem (.unknownType name.name) (Primitive.ofName? name.name = none ∧ name.name ∉ aliases)
  | .applied _ name args =>
    name.problem (.unknownType (name.name ++ " (with " ++ toString args.length ++ " arguments)"))
        (Constructor.ofName? name.name = none ∨ args.length ≠ 1) ++
      TypeExpr.problemsOf aliases args
  | .tuple _ elements => TypeExpr.problemsOf aliases elements
  | .function _ params result => TypeExpr.problemsOf aliases params ++ result.problems aliases
def TypeExpr.problemsOf (aliases : List String) : List TypeExpr → List Diagnostic
  | [] => []
  | type :: types => type.problems aliases ++ TypeExpr.problemsOf aliases types
end

def TypeExpr.hintProblems (aliases : List String) : Option TypeExpr → List Diagnostic
  | none => []
  | some type => type.problems aliases

/-- The problems of parameters or of the elements of a pattern: none may have the name of one before
it, unless it is a wildcard. -/
def Binder.problems (aliases before : List String) : List (Binder Ident TypeExpr) → List Diagnostic
  | [] => []
  | binder :: binders =>
    TypeExpr.hintProblems aliases binder.hint ++
      binder.name.problem (.duplicateSymbol binder.name.name)
        (isWildcard binder.name.name = false ∧ binder.name.name ∈ before) ++
      problems aliases (binder.name.name :: before) binders

namespace Expr

mutual
/-- The problems of an expression from left to right. -/
def problems (aliases : List String) : Expr Ident Mention TypeExpr Span → List Diagnostic
  | .lit _ _ | .none _ => []
  | .var _ mention => mention.ident.problem .wildcardUse (isWildcard mention.ident.name = true)
  | .unary _ _ operand => operand.problems aliases
  | .binary _ _ lhs rhs => lhs.problems aliases ++ rhs.problems aliases
  | .cond _ test yes no => test.problems aliases ++ yes.problems aliases ++ no.problems aliases
  | .letIn _ binder bound body =>
    bound.problems aliases ++ TypeExpr.hintProblems aliases binder.hint ++ body.problems aliases
  | .letRec _ _ params result body rest =>
    Binder.problems aliases [] params ++ TypeExpr.hintProblems aliases result ++
      body.problems aliases ++ rest.problems aliases
  | .letTuple _ binders bound body =>
    bound.problems aliases ++ Binder.problems aliases [] binders ++ body.problems aliases
  | .apply _ callee args => callee.problems aliases ++ problemsOf aliases args
  | .tuple _ elements => problemsOf aliases elements
  | .arrayMake _ size element => size.problems aliases ++ element.problems aliases
  | .arrayLit _ elements => problemsOf aliases elements
  | .arrayLen _ array => array.problems aliases
  | .arrayGet _ array index => array.problems aliases ++ index.problems aliases
  | .arraySet _ array index value =>
    array.problems aliases ++ index.problems aliases ++ value.problems aliases
  | .some _ element => element.problems aliases
  | .matchOption _ target binder someArm noneArm =>
    target.problems aliases ++ TypeExpr.hintProblems aliases binder.hint ++
      someArm.problems aliases ++ noneArm.problems aliases
  | .typed _ child type => child.problems aliases ++ type.problems aliases
def problemsOf (aliases : List String) : List (Expr Ident Mention TypeExpr Span) → List Diagnostic
  | [] => []
  | expr :: exprs => expr.problems aliases ++ problemsOf aliases exprs
end

end Expr

/-- No alias may have the name of one before it or of a primitive. -/
def Alias.problems (before : List String) : List (Alias TypeExpr) → List Diagnostic
  | [] => []
  | first :: rest =>
    first.type.problems before ++
      first.name.problem (.duplicateSymbol first.name.name)
        (first.name.name ∈ before ∨ Primitive.ofName? first.name.name ≠ none) ++
      problems (before ++ [first.name.name]) rest

/-- No external may have the name of one before it. -/
def Declaration.problems (aliases before : List String) :
    List (Declaration TypeExpr) → List Diagnostic
  | [] => []
  | first :: rest =>
    first.type.problems aliases ++
      first.name.problem (.duplicateSymbol first.name.name) (first.name.name ∈ before) ++
      problems aliases (first.name.name :: before) rest

/-- The problems of a program in the order in which it is read: aliases, externals, body. -/
def Surface.problems (program : Surface) : List Diagnostic :=
  Alias.problems [] program.aliases ++ Declaration.problems program.aliasNames [] program.externals ++
    program.body.problems program.aliasNames

/-! ### Reports -/

def report {α : Type} (problems : List Diagnostic) (value : α) : Except Diagnostic α :=
  match problems with
  | [] => .ok value
  | first :: _ => .error first

theorem report_bind {problems : List Diagnostic} {rest : α → Except Diagnostic β}
    (second : rest value = report more result) :
    report problems value >>= rest = report (problems ++ more) result := by
  cases problems with
  | nil => exact second
  | cons _ _ => rfl

theorem report_map (problems : List Diagnostic) (value : α) (change : α → β) :
    (report problems value >>= fun value => pure (change value)) = report problems (change value) := by
  cases problems <;> rfl

mutual
theorem TypeExpr.resolve_eq (aliases : List String) (type : TypeExpr) :
    type.resolve aliases = report (type.problems aliases) (type.meaning aliases) := by
  cases type with
  | hole _ => rfl
  | named _ name =>
    rw [TypeExpr.resolve, TypeExpr.problems, TypeExpr.meaning]
    cases primitive : Primitive.ofName? name.name with
    | some _ => rfl
    | none =>
      cases found : aliases.idxOf? name.name with
      | some index =>
        have known : name.name ∈ aliases := by
          by_contra unknown
          rw [idxOf?_eq_none_iff.mpr unknown] at found
          cases found
        have place : aliases.idxOf name.name = index := by
          rw [idxOf_eq_getD_idxOf?, found, Option.getD_some]
        rw [Ident.problem_neg fun wrong => wrong.2 known, place]
        rfl
      | none =>
        rw [Ident.problem_pos ⟨rfl, idxOf?_eq_none_iff.mp found⟩]
        rfl
  | applied span name args =>
    rw [TypeExpr.problems, TypeExpr.meaning]
    by_cases right : ∃ con arg, Constructor.ofName? name.name = some con ∧ args = [arg]
    · obtain ⟨con, arg, found, rfl⟩ := right
      rw [Ident.problem_neg (by simp [found]), TypeExpr.resolve, TypeExpr.resolve_eq aliases arg, found]
      · simpa [TypeExpr.problemsOf, TypeExpr.meanings] using
          report_map _ _ fun element => Annotation.app span con element
      · exact found
    · have wrong : Constructor.ofName? name.name = none ∨ args.length ≠ 1 := by
        by_contra! both
        obtain ⟨con, found⟩ := Option.ne_none_iff_exists'.mp both.1
        obtain ⟨arg, one⟩ := length_eq_one_iff.mp both.2
        exact right ⟨con, arg, found, one⟩
      rw [Ident.problem_pos wrong, TypeExpr.resolve]
      · rfl
      · exact fun con arg found one => right ⟨con, arg, found, one⟩
  | tuple _ elements =>
    rw [TypeExpr.resolve, TypeExpr.resolveAll_eq aliases elements]
    exact report_map _ _ _
  | function _ params result =>
    rw [TypeExpr.resolve, TypeExpr.resolveAll_eq aliases params, TypeExpr.resolve_eq aliases result]
    exact report_bind (report_map _ _ _)
theorem TypeExpr.resolveAll_eq (aliases : List String) (types : List TypeExpr) :
    TypeExpr.resolveAll aliases types =
      report (TypeExpr.problemsOf aliases types) (TypeExpr.meanings aliases types) := by
  cases types with
  | nil => rfl
  | cons type types =>
    rw [TypeExpr.resolveAll, TypeExpr.resolve_eq aliases type, TypeExpr.resolveAll_eq aliases types]
    exact report_bind (report_map _ _ _)
end

def Reports {α : Type} (computation : ResolveM α) (start : Nat) (problems : List Diagnostic) (value : α)
    (stop : Nat) : Prop :=
  computation.run start = report problems (value, stop)

namespace Reports

variable {start middle stop : Nat} {problems : List Diagnostic}

theorem pure (value : α) (start : Nat) : Reports (Pure.pure value) start [] value start := rfl

theorem bind {rest : α → ResolveM β} (first : Reports computation start problems value middle)
    (second : Reports (rest value) middle more result stop) :
    Reports (computation >>= rest) start (problems ++ more) result stop := by
  rw [Reports, StateT.run_bind, first]
  exact report_bind second

theorem congr {problems' : List Diagnostic} {stop' : Nat}
    (reports : Reports computation start problems value stop) (problems_eq : problems = problems')
    (stop_eq : stop = stop') : Reports computation start problems' value stop' :=
  problems_eq ▸ stop_eq ▸ reports

theorem map (change : α → β) (first : Reports computation start problems value middle) :
    Reports (computation >>= fun value => Pure.pure (change value)) start problems (change value)
      middle := by
  rw [Reports, StateT.run_bind, first]
  exact report_map _ _ _

theorem lift {outcome : Except Diagnostic α} (reports : outcome = report problems value) (start : Nat) :
    Reports (liftM outcome) start problems value start := by
  subst reports
  cases problems <;> rfl

end Reports

/-! ### Scopes and environments -/

namespace Scopes

def declared (scopes : Scopes) (symbol : Symbol) : Scopes :=
  if symbol.isWildcard then scopes else scopes.bind symbol.display symbol

def declaredAll (scopes : Scopes) (symbols : List Symbol) : Scopes := symbols.foldl declared scopes

def Shows (scopes : Scopes) (env : Environment) : Prop :=
  ∀ name, scopes.find? name = env name

def Holds (scopes : Scopes) (names : List String) : Prop :=
  ∀ name, isWildcard name = false → ((scopes.innermost.lookup name).isSome = true ↔ name ∈ names)

theorem find?_eq (scopes : Scopes) (name : String) :
    scopes.find? name = (scopes.innermost.lookup name).or (find? scopes.tail name) := by
  cases scopes with
  | nil => rfl
  | cons frame _ =>
    rw [find?, findSome?_cons, innermost, headD_cons, tail_cons]
    cases frame.lookup name <;> rfl

theorem find?_bind (scopes : Scopes) (symbol : Symbol) (name : String) :
    (scopes.bind symbol.display symbol).find? name =
      if name = symbol.display then some symbol else scopes.find? name := by
  rw [find?_eq, find?_eq scopes, Scopes.bind, innermost, headD_cons, tail_cons, List.lookup_cons]
  by_cases same : name = symbol.display
  · simp [same]
  · simp [same, beq_eq_false_iff_ne.mpr same]

theorem Shows.push (shows : scopes.Shows env) : Shows ([] :: scopes) env :=
  fun name => shows name ▸ rfl

theorem Shows.declared (shows : scopes.Shows env) (symbol : Symbol) :
    (scopes.declared symbol).Shows (env.bind symbol) := by
  intro name
  rw [Scopes.declared, Environment.bind]
  cases symbol.isWildcard with
  | true => simpa using shows name
  | false => simp [find?_bind, shows name]

theorem Shows.declaredAll (shows : scopes.Shows env) (symbols : List Symbol) :
    (scopes.declaredAll symbols).Shows (env.bindAll symbols) := by
  induction symbols generalizing scopes env with
  | nil => exact shows
  | cons symbol _ ih => exact ih (shows.declared symbol)

theorem Holds.push (scopes : Scopes) : Holds ([] :: scopes) [] := fun _ _ => by
  simp [innermost]

theorem Holds.declared (holds : scopes.Holds names) (symbol : Symbol) :
    (scopes.declared symbol).Holds (symbol.display :: names) := by
  intro name visible
  rw [Scopes.declared]
  cases wildcard : symbol.isWildcard with
  | true =>
    -- A wildcard is not entered, and no visible name is one.
    have differs : name ≠ symbol.display := by
      rintro rfl
      exact Bool.noConfusion (visible.symm.trans wildcard)
    simpa [differs] using holds name visible
  | false =>
    rw [if_neg Bool.false_ne_true, Scopes.bind, innermost, headD_cons, List.lookup_cons]
    by_cases same : name = symbol.display
    · simp [same]
    · simpa [same, beq_eq_false_iff_ne.mpr same] using holds name visible

end Scopes

namespace Resolve

variable {aliases : List String}

theorem declare_reports (holds : scopes.Holds names) (ident : Ident) (start : Nat) :
    Reports (declare scopes ident) start
      (ident.problem (.duplicateSymbol ident.name) (isWildcard ident.name = false ∧ ident.name ∈ names))
      (⟨start, ident.name, ident.span⟩, scopes.declared ⟨start, ident.name, ident.span⟩) (start + 1) := by
  rw [Reports, Scopes.declared, Symbol.isWildcard]
  cases visible : isWildcard ident.name with
  | true =>
    rw [Ident.problem_neg fun wrong => Bool.noConfusion wrong.1, declare, visible]
    rfl
  | false =>
    by_cases duplicate : ident.name ∈ names
    · rw [Ident.problem_pos ⟨rfl, duplicate⟩, declare, visible, (holds ident.name visible).mpr duplicate]
      rfl
    · have unbound : (scopes.innermost.lookup ident.name).isSome = false :=
        Bool.eq_false_iff.mpr fun bound => duplicate ((holds ident.name visible).mp bound)
      rw [Ident.problem_neg fun wrong => duplicate wrong.2, declare, visible, unbound]
      rfl

theorem type_reports (type : TypeExpr) (start : Nat) :
    Reports (liftM (type.resolve aliases)) start (type.problems aliases) (type.meaning aliases) start :=
  .lift (type.resolve_eq aliases) start

theorem hint_reports (hint : Option TypeExpr) (start : Nat) :
    Reports (Resolve.hint aliases hint) start (TypeExpr.hintProblems aliases hint)
      (hint.map (TypeExpr.meaning aliases)) start := by
  cases hint with
  | none => exact .pure _ _
  | some type => exact (type_reports type start).map _

theorem binder_reports (holds : scopes.Holds names) (binder : Binder Ident TypeExpr) (start : Nat) :
    Reports (Resolve.binder aliases scopes binder) start
      (TypeExpr.hintProblems aliases binder.hint ++
        binder.name.problem (.duplicateSymbol binder.name.name)
          (isWildcard binder.name.name = false ∧ binder.name.name ∈ names))
      (binder.meaning aliases start, scopes.declared (binder.meaning aliases start).name) (start + 1) :=
  .bind (hint_reports binder.hint start) (.map _ (declare_reports holds binder.name start))

theorem binders_reports (holds : scopes.Holds names) (binders : List (Binder Ident TypeExpr))
    (start : Nat) :
    Reports (Resolve.binders aliases scopes binders) start (Binder.problems aliases names binders)
      (Binder.meanings aliases start binders,
        scopes.declaredAll ((Binder.meanings aliases start binders).map Binder.name))
      (start + binders.length) := by
  induction binders generalizing scopes names start with
  | nil => exact .pure _ _
  | cons first _ ih =>
    rw [Resolve.binders]
    refine .congr (.bind (binder_reports holds first start) (.map _ (ih (holds.declared _) (start + 1)))) rfl ?_
    rw [length_cons, Nat.add_right_comm, Nat.add_assoc]

theorem target_reports (shows : scopes.Shows env) (ident : Ident) (start : Nat) :
    Reports (Resolve.target scopes ident) start (ident.problem .wildcardUse (isWildcard ident.name = true))
      (env.target ident.name) start := by
  rw [Reports, Resolve.target, Ident.problem, Environment.target, shows]
  cases isWildcard ident.name with
  | true => rfl
  | false => cases env ident.name <;> rfl

theorem exprs_reports {exprs : List (Expr Ident Mention TypeExpr Span)}
    (each : ∀ expr ∈ exprs, ∀ start, Reports (Resolve.expr aliases scopes expr) start (expr.problems aliases)
      (expr.meaning aliases env start) (start + expr.size)) (start : Nat) :
    Reports (Resolve.exprs aliases scopes exprs) start (Expr.problemsOf aliases exprs)
      (Expr.meanings aliases env start exprs) (start + (exprs.map Expr.size).sum) := by
  induction exprs generalizing start with
  | nil => exact .pure _ _
  | cons first _ ih =>
    rw [Resolve.exprs, Expr.problemsOf, Expr.meanings, map_cons, sum_cons, ← Nat.add_assoc]
    exact .bind (each first (.head _) start) (.map _ (ih (fun expr mem => each expr (.tail _ mem)) _))

theorem expr_reports (expr : Expr Ident Mention TypeExpr Span) (shows : scopes.Shows env)
    (start : Nat) :
    Reports (Resolve.expr aliases scopes expr) start (expr.problems aliases)
      (expr.meaning aliases env start) (start + expr.size) := by
  induction expr generalizing scopes env start with
  | lit _ _ => exact .pure _ _
  | none _ => exact .pure _ _
  | var _ mention => exact .map _ (target_reports shows mention.ident start)
  | unary _ _ _ ih =>
    rw [Expr.size_eq]
    exact .map _ (ih shows start)
  | binary _ _ _ _ lhs_ih rhs_ih =>
    rw [Expr.size_eq]
    refine .congr (.bind (lhs_ih shows start) (.map _ (rhs_ih shows _))) rfl ?_
    simp [Expr.parts, Nat.add_assoc]
  | cond _ _ _ _ test_ih yes_ih no_ih =>
    rw [Expr.size_eq]
    refine .congr (.bind (test_ih shows start) (.bind (yes_ih shows _) (.map _ (no_ih shows _)))) ?_ ?_
    · rw [Expr.problems, append_assoc]
    · simp [Expr.parts, Nat.add_assoc]
  | letIn _ binder _ _ bound_ih body_ih =>
    rw [Expr.size_eq, Expr.meaning]
    refine .congr (.bind (bound_ih shows start) (.bind (binder_reports (.push scopes) binder _)
      (.map _ (body_ih (shows.push.declared _) _)))) ?_ ?_
    · simp [Expr.problems, Ident.problem_neg]
    · simp [Nat.add_assoc]
  | letRec span name params result _ _ body_ih rest_ih =>
    rw [Expr.size_eq, Expr.meaning]
    -- The name is bound in one scope and the parameters in the next, so a parameter may repeat it.
    have outer := shows.push.declared ⟨start, name.name, name.span⟩
    refine .congr (.bind (declare_reports (.push scopes) name start)
      (.bind (binders_reports (.push _) params _) (.bind (hint_reports result _)
        (.bind (body_ih (outer.push.declaredAll _) _) (.map _ (rest_ih outer _)))))) ?_ ?_
    · simp [Expr.problems, Ident.problem_neg]
    · simp [Nat.add_assoc]
  | letTuple _ binders _ _ bound_ih body_ih =>
    rw [Expr.size_eq, Expr.meaning]
    refine .congr (.bind (bound_ih shows start) (.bind (binders_reports (.push scopes) binders _)
      (.map _ (body_ih (shows.push.declaredAll _) _)))) ?_ ?_
    · rw [Expr.problems, append_assoc]
    · simp [Nat.add_assoc]
  | apply _ _ _ callee_ih args_ih =>
    rw [Expr.size_eq]
    refine .congr (.bind (callee_ih shows start)
      (.map _ (exprs_reports (fun arg mem => args_ih arg mem shows) _))) rfl ?_
    simp [Expr.parts, Nat.add_assoc, Function.comp_def]
  | tuple _ _ ih =>
    rw [Expr.size_eq]
    refine .congr (.map _ (exprs_reports (fun element mem => ih element mem shows) start)) rfl ?_
    simp [Expr.parts, Function.comp_def]
  | arrayMake _ _ _ size_ih element_ih =>
    rw [Expr.size_eq]
    refine .congr (.bind (size_ih shows start) (.map _ (element_ih shows _))) rfl ?_
    simp [Expr.parts, Nat.add_assoc]
  | arrayLit _ _ ih =>
    rw [Expr.size_eq]
    refine .congr (.map _ (exprs_reports (fun element mem => ih element mem shows) start)) rfl ?_
    simp [Expr.parts, Function.comp_def]
  | arrayLen _ _ ih =>
    rw [Expr.size_eq]
    exact .map _ (ih shows start)
  | arrayGet _ _ _ array_ih index_ih =>
    rw [Expr.size_eq]
    refine .congr (.bind (array_ih shows start) (.map _ (index_ih shows _))) rfl ?_
    simp [Expr.parts, Nat.add_assoc]
  | arraySet _ _ _ _ array_ih index_ih value_ih =>
    rw [Expr.size_eq]
    refine .congr (.bind (array_ih shows start) (.bind (index_ih shows _) (.map _ (value_ih shows _)))) ?_ ?_
    · rw [Expr.problems, append_assoc]
    · simp [Expr.parts, Nat.add_assoc]
  | some _ _ ih =>
    rw [Expr.size_eq]
    exact .map _ (ih shows start)
  | matchOption _ _ binder _ _ target_ih some_ih none_ih =>
    rw [Expr.size_eq, Expr.meaning]
    refine .congr (.bind (target_ih shows start) (.bind (binder_reports (.push scopes) binder _)
      (.bind (some_ih (shows.push.declared _) _) (.map _ (none_ih shows _))))) ?_ ?_
    · simp [Expr.problems, Ident.problem_neg]
    · simp [Nat.add_assoc]
  | typed _ _ type ih =>
    rw [Expr.size_eq]
    exact .bind (ih shows start) (.map _ (type_reports type _))

theorem aliases_eq (before : List String) (written : List (Alias TypeExpr)) :
    Resolve.aliases before written =
      report (Alias.problems before written) (Alias.meanings before written) := by
  induction written generalizing before with
  | nil => rfl
  | cons first _ ih =>
    rw [Resolve.aliases, first.type.resolve_eq before, Alias.problems, Alias.meanings, append_assoc]
    refine report_bind ?_
    by_cases taken : first.name.name ∈ before ∨ Primitive.ofName? first.name.name ≠ none
    · have rejected :
          (before.contains first.name.name || (Primitive.ofName? first.name.name).isSome) = true := by
        simpa [Option.isSome_iff_ne_none] using taken
      rw [Ident.problem_pos taken, rejected]
      rfl
    · have passed :
          (before.contains first.name.name || (Primitive.ofName? first.name.name).isSome) = false := by
        simpa using taken
      rw [Ident.problem_neg taken, passed, ih]
      exact report_map _ _ _

theorem declarations_eq (aliases before : List String) (written : List (Declaration TypeExpr)) :
    Resolve.declarations aliases before written =
      report (Declaration.problems aliases before written)
        (written.map fun entry => ⟨entry.name, entry.type.meaning aliases, entry.linkName, entry.span⟩) := by
  induction written generalizing before with
  | nil => rfl
  | cons first _ ih =>
    rw [Resolve.declarations, first.type.resolve_eq aliases, Declaration.problems, append_assoc]
    refine report_bind ?_
    by_cases taken : first.name.name ∈ before
    · rw [Ident.problem_pos taken, contains_iff_mem.mpr taken]
      rfl
    · have passed : before.contains first.name.name = false := by simpa using taken
      rw [Ident.problem_neg taken, passed, ih]
      exact report_map _ _ _

end Resolve

theorem Alias.names_meanings (before : List String) (written : List (Alias TypeExpr)) :
    (Alias.meanings before written).map (fun entry => entry.name.name) =
      written.map fun entry => entry.name.name := by
  induction written generalizing before with
  | nil => rfl
  | cons _ _ ih => rw [Alias.meanings, map_cons, map_cons, ih]

theorem Surface.resolve_eq (program : Surface) :
    program.resolve = report program.problems program.meaning := by
  rw [Surface.resolve, Resolve.aliases_eq, Surface.problems, append_assoc]
  refine report_bind ?_
  dsimp only
  rw [Alias.names_meanings, Resolve.declarations_eq]
  refine report_bind ?_
  have shows : Scopes.Shows [] .empty := fun _ => rfl
  rw [(Resolve.expr_reports program.body shows 0 :)]
  exact report_map _ _ _

end MiddleEnd
