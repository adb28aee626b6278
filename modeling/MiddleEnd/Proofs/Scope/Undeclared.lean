import MiddleEnd.Proofs.Scope.Lexical

/-! The names that a program uses without introducing them. They are those of the variables that no
visible binder is around, also where an external of the program declares the name. -/

namespace MiddleEnd

open List

variable {env : Environment}

/-- A variable of this name stands at a place that no visible binder of the name is around. -/
inductive Unbound (name : String) : Expr Ident Mention TypeExpr Span → Prop where
  | here {expr : Expr Ident Mention TypeExpr Span} {mention : Mention} (ref : expr.ref? = some mention)
      (spelled : mention.ident.name = name) : Unbound name expr
  | inside {expr : Expr Ident Mention TypeExpr Span} {part : List Ident × Expr Ident Mention TypeExpr Span}
      (member : part ∈ expr.parts)
      (passes : ∀ ident ∈ part.1, isWildcard ident.name = true ∨ ident.name ≠ name)
      (unbound : Unbound name part.2) : Unbound name expr

variable {name : String} {expr : Expr Ident Mention TypeExpr Span}

theorem unbound_iff : Unbound name expr ↔
    (∃ mention, expr.ref? = some mention ∧ mention.ident.name = name) ∨
      ∃ part ∈ expr.parts, (∀ ident ∈ part.1, isWildcard ident.name = true ∨ ident.name ≠ name) ∧
        Unbound name part.2 := by
  constructor
  · rintro (⟨ref, spelled⟩ | ⟨mem, passes, unbound⟩)
    · exact .inl ⟨_, ref, spelled⟩
    · exact .inr ⟨_, mem, passes, unbound⟩
  · rintro (⟨_, ref, spelled⟩ | ⟨_, mem, passes, unbound⟩)
    · exact .here ref spelled
    · exact .inside mem passes unbound

theorem exists_mem_iff_of_forall₂ {α β : Type} {holds : α → Prop} {holds' : β → Prop} {values : List α}
    {values' : List β} (each : Forall₂ (fun value value' => holds value ↔ holds' value') values values') :
    (∃ value ∈ values, holds value) ↔ ∃ value ∈ values', holds' value := by
  induction each with
  | nil => simp
  | cons first _ ih => simp only [exists_mem_cons_iff, first, ih]

theorem Environment.target_eq_external {spelling : String} :
    env.target spelling = .external name ↔ spelling = name ∧ env name = none := by
  rw [target]
  cases found : env spelling <;> grind

theorem Environment.inside_eq_none {symbols : List Symbol} {idents : List Ident}
    (same : symbols.map Symbol.display = idents.map Ident.name) :
    env.inside symbols name = none ↔
      (∀ ident ∈ idents, isWildcard ident.name = true ∨ ident.name ≠ name) ∧ env name = none := by
  have spelled : (∀ symbol ∈ symbols, ¬symbol.isSpelled name = true) ↔
      ∀ display ∈ symbols.map Symbol.display, isWildcard display = true ∨ display ≠ name := by
    simp only [forall_mem_map, Symbol.isSpelled_iff, Symbol.isWildcard]
    grind
  rw [inside, Option.or_eq_none_iff, find?_eq_none, spelled, same, forall_mem_map]

namespace Expr

theorem parts_displays (expr : Expr Ident Mention TypeExpr Span) (aliases : List String)
    (env : Environment) (start : Nat) :
    Forall₂ (fun part part' => part.1.map Ident.name = part'.1.map Symbol.display) expr.parts
      (expr.meaning aliases env start).parts := by
  have displays (start : Nat) (binders : List (Binder Ident TypeExpr)) :
      ((Binder.meanings aliases start binders).map Binder.name).map Symbol.display =
        (binders.map Binder.name).map Ident.name := by
    rw [Binder.names_meanings]
    apply ext_getElem <;> simp [Ident.symbols]
  have plain (start : Nat) (exprs : List (Expr Ident Mention TypeExpr Span)) :
      (meanings aliases env start exprs).map (fun _ => ([] : List String)) = exprs.map fun _ => [] := by
    induction exprs generalizing start with
    | nil => rfl
    | cons _ _ ih => rw [meanings, map_cons, ih, map_cons]
  have same : expr.parts.map (fun part => part.1.map Ident.name) =
      (expr.meaning aliases env start).parts.map fun part => part.1.map Symbol.display := by
    cases expr <;> simp_all [parts, meaning, Binder.meaning, Function.comp_def]
  rwa [← forall₂_eq_eq_eq, forall₂_map_left_iff, forall₂_map_right_iff] at same

theorem external_meaning_iff {aliases : List String} (clean : expr.problems aliases = []) (start : Nat) :
    Unbound name expr ∧ env name = Option.none ↔
      ∃ ref ∈ (expr.meaning aliases env start).refs, ref.target = .external name := by
  induction expr using part_induction generalizing env start with
  | step expr ih =>
    have each : Forall₂ (fun part part' =>
        ((∀ ident ∈ part.1, isWildcard ident.name = true ∨ ident.name ≠ name) ∧ Unbound name part.2) ∧
            env name = Option.none ↔
          ∃ ref ∈ part'.2.refs, ref.target = .external name)
        expr.parts (expr.meaning aliases env start).parts := by
      refine .mp ?_ (clean_parts_meaning env clean start) (expr.parts_displays aliases env start)
      rintro part part' ⟨⟨mem, part_clean⟩, _, same⟩ displays
      rw [same, ← ih part mem part_clean, Environment.inside_eq_none displays.symm]
      tauto
    have inner := exists_mem_iff_of_forall₂ each
    rw [refs_eq, unbound_iff, ref?_meaning]
    simp only [mem_append, mem_flatMap, Option.mem_toList, Option.map_eq_some_iff, or_and_right,
      exists_or]
    constructor
    · rintro (⟨⟨mention, ref, spelled⟩, free⟩ | ⟨⟨part, mem, passes, unbound⟩, free⟩)
      · exact .inl ⟨_, ⟨mention, ref, rfl⟩, Environment.target_eq_external.mpr ⟨spelled, free⟩⟩
      · obtain ⟨part', mem', ref, there, external⟩ := inner.mp ⟨part, mem, ⟨passes, unbound⟩, free⟩
        exact .inr ⟨ref, ⟨part', mem', there⟩, external⟩
    · rintro (⟨_, ⟨mention, ref, rfl⟩, external⟩ | ⟨ref, ⟨part', mem', there⟩, external⟩)
      · obtain ⟨spelled, free⟩ := Environment.target_eq_external.mp external
        exact .inl ⟨⟨mention, ref, spelled⟩, free⟩
      · obtain ⟨part, mem, ⟨passes, unbound⟩, free⟩ := inner.mpr ⟨part', mem', ref, there, external⟩
        exact .inr ⟨⟨part, mem, passes, unbound⟩, free⟩

end Expr

theorem Resolved.mem_undeclared {resolved : Resolved} :
    name ∈ resolved.undeclared ↔ ∃ ref ∈ resolved.body.refs, ref.target = .external name := by
  rw [undeclared, mem_nameSet, mem_filterMap]
  refine exists_congr fun ref => and_congr_right fun _ => ?_
  cases ref.target <;> simp

namespace Surface

/-- A name counts as undeclared exactly if a variable of the name stands outside of all visible binders of
the name. What the externals of the program declare does not matter. -/
theorem undeclared_unbound {program : Surface} {resolved : Resolved} (resolves : program.resolve = .ok resolved)
    (name : String) : name ∈ resolved.undeclared ↔ Unbound name program.body := by
  rw [program.resolve_eq] at resolves
  cases problems : program.problems with
  | cons first rest => simp [problems, report] at resolves
  | nil =>
    have clean : program.body.problems program.aliasNames = [] := by simp_all [Surface.problems]
    obtain rfl : program.meaning = resolved := by simpa [problems, report] using resolves
    rw [Resolved.mem_undeclared, meaning, ← Expr.external_meaning_iff clean]
    exact and_iff_left rfl

/-- An external that is declared and used, next to a name that is only used. -/
def declaredUse : Surface :=
  let name (text : String) : Ident := ⟨text, default, 0⟩
  let var (text : String) (order : Nat) : Expr Ident Mention TypeExpr Span :=
    .var default ⟨name text, order⟩
  { aliases := []
    externals := [⟨name "limit", .named default (name "int"), "limit", default⟩]
    body := .letIn default ⟨name "x", none⟩ (var "limit" 0) (.binary default .add (var "x" 1) (var "step" 2)) }

theorem resolve_declaredUse : declaredUse.resolve = .ok declaredUse.meaning ∧
    declaredUse.meaning.undeclared = ["limit", "step"] :=
  ⟨rfl, by decide +kernel⟩

theorem undeclared_unbound_declaredUse : ∃ resolved, declaredUse.resolve = .ok resolved ∧
    resolved.undeclared = ["limit", "step"] ∧ Unbound "limit" declaredUse.body ∧
      ¬Unbound "x" declaredUse.body := by
  obtain ⟨resolves, undeclared⟩ := resolve_declaredUse
  refine ⟨_, resolves, undeclared, ?_, ?_⟩
  · exact (undeclared_unbound resolves "limit").mp (by simp [undeclared])
  · exact fun unbound => absurd ((undeclared_unbound resolves "x").mpr unbound) (by simp [undeclared])

/-- The name of the external is among those that the program uses without declaring them. -/
theorem declaredUse_counted : ∃ resolved, declaredUse.resolve = .ok resolved ∧
    ∃ entry ∈ declaredUse.externals, entry.name.name ∈ resolved.undeclared := by
  obtain ⟨resolves, undeclared⟩ := resolve_declaredUse
  refine ⟨_, resolves, _, List.mem_cons_self, ?_⟩
  simp [undeclared]

end Surface

end MiddleEnd
