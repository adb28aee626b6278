import Mathlib.Data.List.Forall2
import MiddleEnd.Proofs.Code.Names
import MiddleEnd.Proofs.Scope.Meaning

/-! Lexical scoping. In a program without problems each variable means the innermost visible binder of
its name around it, and the binders are numbered in depth-first order. -/

namespace MiddleEnd

open List

variable {α β : Type} {values : List α} {values' : List β} {aliases : List String}
  {env : Environment} {expr : Expr Ident Mention TypeExpr Span}

theorem forall_mem_of_forall₂ {holds : β → Prop}
    (each : Forall₂ (fun _ value => holds value) values values') : ∀ value ∈ values', holds value := by
  induction each with
  | nil => exact forall_mem_nil _
  | cons first _ ih => exact forall_mem_cons.mpr ⟨first, ih⟩

theorem flatMap_eq_of_forall₂ {γ : Type} {first : α → List γ} {second : β → List γ}
    (each : Forall₂ (fun value value' => first value = second value') values values') :
    values.flatMap first = values'.flatMap second := by
  induction each with
  | nil => rfl
  | cons same _ ih => rw [flatMap_cons, same, ih, flatMap_cons]

/-! ### Variables -/

def Symbol.isSpelled (symbol : Symbol) (name : String) : Bool :=
  !symbol.isWildcard && symbol.display == name

theorem Symbol.isSpelled_iff {symbol : Symbol} {name : String} :
    symbol.isSpelled name = true ↔ symbol.isWildcard = false ∧ symbol.display = name := by
  simp [isSpelled]

def Target.spelling : Target → String
  | bound symbol => symbol.display
  | external name => name

def Target.innermost (scope : List Symbol) (name : String) : Target :=
  match scope.find? fun symbol => symbol.isSpelled name with
  | some symbol => .bound symbol
  | none => .external name

inductive Linked : List Symbol → Expr Symbol Reference Annotation Span → Prop where
  | node {scope : List Symbol} {expr : Expr Symbol Reference Annotation Span}
      (ref : ∀ ref, expr.ref? = some ref → ref.target = .innermost scope ref.target.spelling)
      (parts : ∀ part ∈ expr.parts, Linked (part.1 ++ scope) part.2) : Linked scope expr

namespace Environment

variable (env : Environment)

def inside (symbols : List Symbol) : Environment := fun name =>
  (symbols.find? fun symbol => symbol.isSpelled name).or (env name)

theorem inside_append (inner outer : List Symbol) :
    env.inside (inner ++ outer) = (env.inside outer).inside inner := by
  funext name
  rw [inside, find?_append, Option.or_assoc]
  rfl

theorem bind_eq_inside (symbol : Symbol) : env.bind symbol = env.inside [symbol] := by
  funext name
  rw [bind, inside, find?_cons, find?_nil]
  by_cases here : symbol.isWildcard = false ∧ name = symbol.display
  · rw [if_pos here, Symbol.isSpelled_iff.mpr ⟨here.1, here.2.symm⟩]
    rfl
  · have differs : symbol.isSpelled name = false :=
      Bool.eq_false_iff.mpr fun spelled =>
        here ((Symbol.isSpelled_iff.mp spelled).imp_right Eq.symm)
    rw [if_neg here, differs]
    rfl

theorem bindAll_eq_inside {symbols : List Symbol} (apart : symbols.Pairwise fun symbol symbol' =>
      ∀ name, symbol.isSpelled name = true → symbol'.isSpelled name = false) :
    env.bindAll symbols = env.inside symbols := by
  induction symbols generalizing env with
  | nil => rfl
  | cons symbol symbols ih =>
    obtain ⟨first, rest⟩ := pairwise_cons.mp apart
    rw [bindAll, foldl_cons]
    change (env.bind symbol).bindAll symbols = _
    rw [ih _ rest, bind_eq_inside, ← inside_append]
    funext name
    rw [inside, inside, find?_append, find?_cons]
    cases spelled : symbol.isSpelled name with
    | false => simp [spelled]
    | true =>
      -- Binding goes from the left and search from the right: they agree as no later binder has the name.
      have absent : symbols.find? (fun symbol => symbol.isSpelled name) = none :=
        find?_eq_none.mpr fun other mem => by simp [first other mem name spelled]
      simp [absent, spelled]

theorem target_inside (scope : List Symbol) (name : String) :
    (empty.inside scope).target name = .innermost scope name := by
  rewrite [target, inside, Target.innermost, empty, Option.or_none]
  rfl

end Environment

theorem Target.spelling_innermost (scope : List Symbol) (name : String) :
    (innermost scope name).spelling = name := by
  rw [innermost]
  cases found : scope.find? fun symbol => symbol.isSpelled name with
  | none => rfl
  | some symbol =>
    have spelled := find?_some (p := fun symbol : Symbol => symbol.isSpelled name) found
    exact (Symbol.isSpelled_iff.mp spelled).2

theorem Binder.apart_meanings {before : List String} {binders : List (Binder Ident TypeExpr)}
    (clean : Binder.problems aliases before binders = []) (start : Nat) :
    ((Binder.meanings aliases start binders).map Binder.name).Pairwise (fun symbol symbol' =>
        ∀ name, symbol.isSpelled name = true → symbol'.isSpelled name = false) ∧
      ∀ symbol ∈ (Binder.meanings aliases start binders).map Binder.name, ∀ name ∈ before,
        symbol.isSpelled name = false := by
  induction binders generalizing before start with
  | nil => exact ⟨.nil, forall_mem_nil _⟩
  | cons binder _ ih =>
    rw [Binder.problems, append_eq_nil_iff, append_eq_nil_iff] at clean
    obtain ⟨⟨-, fresh⟩, rest⟩ := clean
    obtain ⟨apart, absent⟩ := ih rest (start + 1)
    have fresh : ¬(isWildcard binder.name.name = false ∧ binder.name.name ∈ before) := fun duplicate =>
      cons_ne_nil _ _ ((Ident.problem_pos duplicate).symm.trans fresh)
    rw [Binder.meanings, map_cons, pairwise_cons, forall_mem_cons]
    refine ⟨⟨fun symbol mem name spelled => ?_, apart⟩, fun name mem => ?_,
      fun symbol mem name there => absent symbol mem name (.tail _ there)⟩
    · have same : binder.name.name = name := (Symbol.isSpelled_iff.mp spelled).2
      exact absent symbol mem name (same ▸ mem_cons_self)
    · refine Bool.eq_false_iff.mpr fun spelled => fresh ?_
      obtain ⟨visible, same⟩ := Symbol.isSpelled_iff.mp spelled
      have same : binder.name.name = name := same
      exact ⟨visible, same ▸ mem⟩

namespace Expr

theorem problemsOf_eq (exprs : List (Expr Ident Mention TypeExpr Span)) :
    problemsOf aliases exprs = exprs.flatMap (problems aliases) := by
  induction exprs with
  | nil => rfl
  | cons _ _ ih => rw [problemsOf, ih, flatMap_cons]

theorem problems_part (clean : expr.problems aliases = []) {part : List Ident × Expr Ident Mention TypeExpr Span}
    (mem : part ∈ expr.parts) : part.2.problems aliases = [] := by
  cases expr <;> simp [parts, problems, problemsOf_eq] at clean mem <;> grind

theorem ref?_meaning (start : Nat) :
    (expr.meaning aliases env start).ref? =
      expr.ref?.map fun mention => ⟨env.target mention.ident.name, mention.order⟩ := by
  cases expr <;> rfl

def PartMeaning (aliases : List String) (env : Environment)
    (part : List Ident × Expr Ident Mention TypeExpr Span)
    (part' : List Symbol × Expr Symbol Reference Annotation Span) : Prop :=
  ∃ start, part'.2 = part.2.meaning aliases (env.inside part'.1) start

theorem PartMeaning.of_eq {env' : Environment} {names : List Ident} {symbols : List Symbol}
    {start : Nat} (same : env' = env.inside symbols) :
    PartMeaning aliases env (names, expr) (symbols, expr.meaning aliases env' start) :=
  ⟨start, same ▸ rfl⟩

theorem PartMeaning.plain (start : Nat) (expr : Expr Ident Mention TypeExpr Span) :
    PartMeaning aliases env ([], expr) ([], expr.meaning aliases env start) :=
  .of_eq rfl

theorem parts_meanings (start : Nat) (exprs : List (Expr Ident Mention TypeExpr Span)) :
    Forall₂ (PartMeaning aliases env) (exprs.map (Prod.mk []))
      ((meanings aliases env start exprs).map (Prod.mk [])) := by
  induction exprs generalizing start with
  | nil => exact .nil
  | cons expr _ ih => exact .cons (.plain start expr) (ih _)

theorem parts_meaning (clean : expr.problems aliases = []) (start : Nat) :
    Forall₂ (PartMeaning aliases env) expr.parts (expr.meaning aliases env start).parts := by
  cases expr with
  | lit _ _ | var _ _ | none _ => exact .nil
  | unary _ _ part | arrayLen _ part | some _ part | typed _ part _ => exact .cons (.plain _ _) .nil
  | binary _ _ _ _ | arrayMake _ _ _ | arrayGet _ _ _ => exact .cons (.plain _ _) (.cons (.plain _ _) .nil)
  | cond _ _ _ _ | arraySet _ _ _ _ =>
    exact .cons (.plain _ _) (.cons (.plain _ _) (.cons (.plain _ _) .nil))
  | tuple _ elements | arrayLit _ elements => exact parts_meanings start elements
  | apply _ _ args => exact .cons (.plain _ _) (parts_meanings _ args)
  | letIn _ _ _ _ =>
    exact .cons (.plain _ _) (.cons (.of_eq (env.bind_eq_inside _)) .nil)
  | matchOption _ _ _ _ _ =>
    exact .cons (.plain _ _) (.cons (.of_eq (env.bind_eq_inside _)) (.cons (.plain _ _) .nil))
  | letTuple _ binders _ _ =>
    have binders_clean : Binder.problems aliases [] binders = [] := by simp_all [problems]
    exact .cons (.plain _ _)
      (.cons (.of_eq (env.bindAll_eq_inside (Binder.apart_meanings binders_clean _).1)) .nil)
  | letRec _ _ params _ body _ =>
    have params_clean : Binder.problems aliases [] params = [] := by simp_all [problems]
    -- The body sees the function from inside of the parameters, which may hide it.
    refine .cons (.of_eq ?_) (.cons (.of_eq (env.bind_eq_inside _)) .nil)
    rw [Environment.inside_append, ← Environment.bind_eq_inside,
      Environment.bindAll_eq_inside _ (Binder.apart_meanings params_clean _).1]

theorem clean_parts_meaning (env : Environment) (clean : expr.problems aliases = []) (start : Nat) :
    Forall₂ (fun part part' => (part ∈ expr.parts ∧ part.2.problems aliases = []) ∧
        PartMeaning aliases env part part')
      expr.parts (expr.meaning aliases env start).parts :=
  (forall₂_and_left _ _).mpr ⟨fun _ mem => ⟨mem, problems_part clean mem⟩, parts_meaning clean start⟩

theorem linked_meaning (clean : expr.problems aliases = []) (scope : List Symbol) (start : Nat) :
    Linked scope (expr.meaning aliases (Environment.empty.inside scope) start) := by
  induction expr using part_induction generalizing scope start with
  | step _ ih =>
    have each := clean_parts_meaning (Environment.empty.inside scope) clean start
    refine .node (fun ref here => ?_) (forall_mem_of_forall₂ (each.imp ?_))
    · rw [ref?_meaning, Option.map_eq_some_iff] at here
      obtain ⟨_, -, rfl⟩ := here
      rw [Environment.target_inside, Target.spelling_innermost]
    · rintro part _ ⟨⟨mem, part_clean⟩, _, same⟩
      rw [same, ← Environment.inside_append]
      exact ih part mem part_clean _ _

theorem refs_meaning (clean : expr.problems aliases = []) (scope : List Symbol) (start : Nat) :
    (expr.meaning aliases (Environment.empty.inside scope) start).refs.map
        (fun ref => (ref.target.spelling, ref.order)) =
      expr.refs.map fun mention => (mention.ident.name, mention.order) := by
  induction expr using part_induction generalizing scope start with
  | step expr ih =>
    have each := clean_parts_meaning (Environment.empty.inside scope) clean start
    rw [refs_eq, refs_eq expr, ref?_meaning, map_append, map_append, map_flatMap, map_flatMap]
    congr 1
    · cases expr.ref? with
      | none => rfl
      | some _ => simp [Environment.target_inside, Target.spelling_innermost]
    · refine (flatMap_eq_of_forall₂ (each.imp ?_)).symm
      rintro part _ ⟨⟨mem, part_clean⟩, _, same⟩
      rw [same, ← Environment.inside_append]
      exact (ih part mem part_clean _ _).symm

end Expr

/-! ### Binders -/

namespace Ident

def symbols (start : Nat) (idents : List Ident) : List Symbol :=
  idents.mapIdx fun index ident => ⟨start + index, ident.name, ident.span⟩

@[simp] theorem symbols_nil (start : Nat) : symbols start [] = [] := rfl

@[simp] theorem symbols_append (start : Nat) (idents idents' : List Ident) :
    symbols start (idents ++ idents') = symbols start idents ++ symbols (start + idents.length) idents' := by
  simp [symbols, mapIdx_append, Nat.add_comm, Nat.add_left_comm]

@[simp] theorem symbols_cons (start : Nat) (ident : Ident) (idents : List Ident) :
    symbols start (ident :: idents) = ⟨start, ident.name, ident.span⟩ :: symbols (start + 1) idents := by
  simp [symbols, Nat.add_comm, Nat.add_left_comm]

theorem nodup_symbols (idents : List Ident) : ((symbols 0 idents).map Symbol.name).Nodup := by
  refine Symbol.nodup_names ?_
  have numbers : (symbols 0 idents).map Symbol.number = range idents.length := by
    apply ext_getElem <;> simp [symbols]
  rw [numbers]
  exact nodup_range

end Ident

open Ident (symbols symbols_nil symbols_append symbols_cons)

theorem Binder.names_meanings (aliases : List String) (start : Nat)
    (binders : List (Binder Ident TypeExpr)) :
    (Binder.meanings aliases start binders).map Binder.name = symbols start (binders.map Binder.name) := by
  induction binders generalizing start with
  | nil => rfl
  | cons _ _ ih =>
    rw [Binder.meanings, map_cons, ih, map_cons, symbols_cons]
    rfl

namespace Expr

theorem names_meanings {exprs : List (Expr Ident Mention TypeExpr Span)}
    (each : ∀ expr ∈ exprs, ∀ start,
      (expr.meaning aliases env start).names = symbols start expr.names) (start : Nat) :
    (meanings aliases env start exprs).flatMap names = symbols start (exprs.flatMap names) := by
  induction exprs generalizing start with
  | nil => rfl
  | cons expr _ ih =>
    rw [meanings, flatMap_cons, flatMap_cons, each expr (.head _), symbols_append,
      ih fun expr mem => each expr (.tail _ mem)]
    rfl

theorem names_meaning (expr : Expr Ident Mention TypeExpr Span) (start : Nat) :
    (expr.meaning aliases env start).names = symbols start expr.names := by
  induction expr generalizing env start with
  | apply _ _ _ callee_ih args_ih =>
    rw [meaning, names_eq, names_eq]
    simp [parts, callee_ih, flatMap_map, names_meanings fun arg mem => args_ih arg mem, size]
  | tuple _ _ ih =>
    rw [meaning, names_eq, names_eq]
    simp [parts, flatMap_map, names_meanings fun element mem => ih element mem]
  | arrayLit _ _ ih =>
    rw [meaning, names_eq, names_eq]
    simp [parts, flatMap_map, names_meanings fun element mem => ih element mem]
  | _ =>
    rw [meaning, names_eq, names_eq]
    simp_all [parts, size, Binder.names_meanings, Nat.add_assoc, Binder.meaning]

end Expr

/-! ### Programs -/

/-- A program whose names are resolved as they are written. -/
structure Surface.LexicallyScoped (program : Surface) (resolved : Resolved) : Prop where
  /-- Every variable means the innermost visible binder of its name. -/
  linked : Linked [] resolved.body
  /-- The variables are those of the program. -/
  refs : resolved.body.refs.map (fun ref => (ref.target.spelling, ref.order)) =
    program.body.refs.map fun mention => (mention.ident.name, mention.order)
  /-- The binders are those of the program in depth-first order. -/
  symbols : resolved.symbols =
    program.body.names.mapIdx fun index ident => ⟨index, ident.name, ident.span⟩
  names : resolved.symbols.map Symbol.name =
    program.body.names.mapIdx fun index ident => ident.name ++ "$" ++ toString (index + 1)
  distinct : (resolved.symbols.map Symbol.name).Nodup

/-- Resolution gives a program without problems the meaning that lexical scoping gives it, and reports
the first problem of any other. -/
theorem Surface.resolve_lexical (program : Surface) :
    match program.problems with
    | [] => program.resolve = .ok program.meaning ∧ program.LexicallyScoped program.meaning
    | first :: _ => program.resolve = .error first := by
  rw [program.resolve_eq]
  cases problems : program.problems with
  | cons first rest => rfl
  | nil =>
    have clean : program.body.problems program.aliasNames = [] := by
      simp_all [Surface.problems]
    have symbols : program.meaning.symbols = Ident.symbols 0 program.body.names :=
      program.body.names_meaning 0
    refine ⟨rfl, program.body.linked_meaning clean [] 0, program.body.refs_meaning clean [] 0, ?_, ?_, ?_⟩
    · simp [symbols, Ident.symbols]
    · rw [symbols]
      apply List.ext_getElem <;> simp [Ident.symbols, Symbol.name]
    · exact symbols ▸ Ident.nodup_symbols _

end MiddleEnd
