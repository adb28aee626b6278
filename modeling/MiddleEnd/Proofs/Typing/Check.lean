import MiddleEnd.Proofs.Typing.Found

/-! Type checking runs into no fault, and what it makes of a program is a typing derivation with final types. -/

namespace MiddleEnd

variable {state : Inference} {fine : String → Prop} {watch : Watch} {program : Resolved}
  {types : List Ty}

namespace Infer

theorem Prepared.complete {typed : TypedExpr} {later : Inference}
    (prepared : Prepared program types state)
    (body : Found watch { aliases := types } 0 state program.body typed later) :
    Complete program typed later types := by
  refine ⟨body.moves.steps.good, body.erased, body.derives, prepared.aliases, prepared.aliased,
    fun entry mem => ?_⟩
  obtain ⟨type, describes, found⟩ := prepared.declared entry mem
  exact ⟨type, describes, body.moves.steps.reached.external found⟩

theorem program_found (placed : program.WellScoped fine)
    (plain : watch.alone → program.body.PlainPatterns) (good : watch.Good state) (base : watch.base = 0) :
    Infers (Infer.program program) state fun typed later =>
      (∃ types, Complete program typed later types ∧ watch.Fits { aliases := types } later 0 [] ∧
        (watch.alone → Types { aliases := types } later typed)) ∧
        (state.Dated → Notes state [typed] later) := by
  rw [program_eq]
  refine .bind (prelude_moves placed good base) fun types _ ⟨prepared, fits, notes⟩ => ?_
  refine (expr_found program.body ⟨fits, Nat.le_of_eq base, prepared.placed placed, plain⟩).weaken
    fun typed later found => ?_
  exact ⟨⟨types, prepared.complete found, fits.after found.moves, found.types⟩,
    fun dated => notes.trans (found.notes (notes.dated dated))⟩

theorem program_spec (placed : program.WellScoped fine) (good : state.Good) :
    Infers (Infer.program program) state fun typed later =>
      (∃ types, Complete program typed later types) ∧ (state.Dated → Notes state [typed] later) :=
  (program_found placed False.elim (Watch.good_unwatched good) rfl).weaken fun _ _ ⟨⟨types, complete, _⟩, notes⟩ =>
    ⟨⟨types, complete⟩, notes⟩

end Infer

structure Checked (program : Resolved) (typed : Typed) (inferred : TypedExpr) (state : Inference)
    (types : List Ty) : Prop where
  complete : Infer.Complete program inferred state types
  body : typed.body = inferred.close (state.settle inferred)
  externals : typed.externals.entries = state.externals.entries.map fun (name, external) =>
    (name, { external with type := (state.settle inferred).closed external.type })
  comparisons : ∀ here ∈ typed.body.comparisons, here.op.accepts here.operand = true

theorem good_builtins (seeded : Bool) :
    Inference.Good { externals := if seeded then builtinExternals else .empty } := by
  have closed : ∀ entry ∈ builtinExternals.entries,
      entry.2.type.vars = [] ∧ entry.2.type.generics = [] := by decide +kernel
  intro entry mem
  cases seeded with
  | false => cases mem
  | true =>
    refine Store.mono_iff.mpr ⟨fun _ here => ?_, (closed entry mem).2⟩
    rw [(closed entry mem).1] at here
    cases here

theorem checkComparisons_spec (expr : TypedExpr) :
    Yields Stop.IsRejection expr.checkComparisons fun _ =>
      ∀ here ∈ expr.comparisons, here.op.accepts here.operand = true := by
  unfold Expr.checkComparisons
  split
  · next none_found => exact .pure (by simpa using none_found)
  · exact .throw trivial

theorem Inference.close_spec {body : TypedExpr} (derives : Derives state { aliases := types } body)
    (program : Resolved) : Yields Stop.IsUnknown (state.close program body) fun typed =>
      typed.body = body.close (state.settle body) ∧
        typed.externals.entries = state.externals.entries.map fun (name, external) =>
          (name, { external with type := (state.settle body).closed external.type }) := by
  refine .bind (Close.expr_closes derives) fun _ spec => ?_
  refine .bind (Close.externals_closes program _) fun _ externals => .pure ?_
  exact ⟨spec, externals⟩

theorem Resolved.check_spec (placed : program.WellScoped fine) (settings : Settings) :
    Yields Stop.IsRejection (program.check settings) fun typed =>
      ∃ inferred state types, Checked program typed inferred state types := by
  have inferred := Infer.program_spec placed (good_builtins settings.seedBuiltins)
  refine .bind inferred fun (body, state) complete => ?_
  obtain ⟨⟨types, complete⟩, -⟩ := complete
  have closed := (state.close_spec complete.derives program).loosen fun _ unknown => unknown.isRejection
  refine .bind closed fun typed spec => ?_
  refine .bind (checkComparisons_spec typed.body) fun _ accepted => .pure ?_
  exact ⟨body, state, types, complete, spec.1, spec.2, accepted⟩

end MiddleEnd
