import MiddleEnd.Proofs.Typing.Retains

/-! Variables that have become placeholders stay without a link: inference at an expression hides
whatever it freezes from all that comes after. Only the parts of a tuple pattern are not yet hidden from
each other, so that an annotation can still link a variable that an earlier part has frozen. -/

namespace MiddleEnd

open List

variable {types : List Ty}

/-! ### The start of inference -/

namespace Infer

theorem aliases_leads (state : Inference) {before : List Ty} (plain : ∀ type ∈ before, type.generics = [])
    (entries : List (Alias Annotation)) :
    Meets (fun _ => True) (aliases before entries) state fun types later =>
      state.Leads later ∧ ∀ type ∈ types, type.generics = [] := by
  induction entries generalizing state before with
  | nil => exact .pure ⟨.refl state, plain⟩
  | cons first rest ih =>
    rw [aliases]
    refine .bind (annotated_leads plain first.type state) fun type middle spec => ?_
    refine (ih middle (forall_mem_append.mpr ⟨plain, forall_mem_singleton.mpr spec.2⟩)).weaken
      fun types later rest => ⟨spec.1.trans rest.1, rest.2⟩

theorem declarations_leads (state : Inference) (plain : ∀ type ∈ types, type.generics = [])
    (entries : List (Declaration Annotation)) :
    Meets (fun _ => True) (declarations types entries) state fun _ later => state.Leads later := by
  induction entries generalizing state with
  | nil => exact .pure (.refl state)
  | cons first rest ih =>
    rw [declarations]
    refine .bind (annotated_leads plain first.type state) fun type middle spec => .modify ?_
    have declared (external : External) (without : external.type.generics = []) :
        middle.Leads { middle with externals := middle.externals.insert first.name.name external } := by
      refine ⟨.refl _, fun before => ⟨before.store, forall_mem_cons.mpr ⟨without, fun entry mem => ?_⟩⟩⟩
      exact before.externals entry (mem_filter.mp mem).1
    exact (ih _).weaken fun _ later rest => (spec.1.trans (declared ⟨type, first.linkName⟩ spec.2)).trans rest

theorem prelude_leads (state : Inference) (program : Resolved) :
    Meets (fun _ => True) (prelude program) state fun types later =>
      state.Leads later ∧ ∀ type ∈ types, type.generics = [] := by
  refine .bind (aliases_leads state (forall_mem_nil _) _) fun types middle spec => ?_
  refine .bind (declarations_leads middle spec.2 _) fun _ later leads => .pure ⟨spec.1.trans leads, spec.2⟩

theorem plain_start (settings : Settings) : (Inference.start settings).Plain where
  store n := by
    rw [Store.expand_of_unlinked (by rfl)]
    rfl
  externals entry mem := (good_builtins settings.seedBuiltins entry mem).generics

end Infer

namespace Record

theorem held_prelude {source : Resolved} {settings : Settings} {state : Inference}
    (run : (RecordM.quiet (Infer.prelude source) (.start settings)).2 = .ok (types, state)) :
    Held { aliases := types } 0 (types.flatMap Ty.vars ++ []) state := by
  have advances := (guards_prelude (ready_start settings) source).advances run
  obtain ⟨leads, plain⟩ := (Infer.prelude_leads (.start settings) source).of_run run
  refine ⟨((ready_start settings).after advances).and advances.vars, leads.plain (Infer.plain_start settings),
    ⟨forall_mem_nil _, fun type mem _ here => ?_⟩, plain, forall_mem_nil _⟩
  exact mem_append_left _ (mem_flatMap.mpr ⟨type, mem, here⟩)

theorem guards_program (source : Resolved) (settings : Settings) :
    Guards 0 [] (.start settings) (program source (.start settings)) (fun typed => typed.type.vars) := by
  refine (guards_prelude (ready_start settings) source).bind_keep (Nat.le_refl 0) fun _ middle run _ => ?_
  have held := held_prelude run
  have retains : Retains (fun _ => False) 0 _ [] middle _ _ _ _ := keeps_expr source.body held
  exact ⟨_, fun _ mem => mem, held.ready, retains.guards⟩

end Record

/-- The moments that the inference of a program goes through, up to its end or to its first error. -/
def Resolved.record (program : Resolved) (settings : Settings) : List Moment :=
  (Record.program program (.start settings)).1

/-- Once generalizing a type has frozen a variable, no later attempt to unify types gives it a link, and
neither do the defaults at the end, unless it was frozen while an annotation of the same pattern was still
to be checked. -/
theorem Resolved.frozen_unlinked (program : Resolved) (settings : Settings) :
    (Record.program program).plain = Infer.program program ∧
      (program.record settings).Pairwise Moment.Lasts ∧
      ∀ typed state, (Infer.program program).run (.start settings) = .ok (typed, state) →
        (∀ n, state.store.isGeneralized n = true →
          ∃ moment ∈ program.record settings, n ∈ moment.frozen) ∧
        ∀ moment ∈ program.record settings, moment.pending = false →
          ∀ n ∈ moment.frozen, (state.settle typed).link? n = none := by
  have guards := Record.guards_program program settings
  have plain := Record.plain_program program
  refine ⟨plain, guards.ordered, fun typed state run => ?_⟩
  have run : (Record.program program (.start settings)).2 = .ok (typed, state) :=
    (congrFun plain (.start settings)).trans run
  constructor
  · intro n marked
    refine (guards.marked run marked).resolve_left fun before => ?_
    exact absurd (Store.isGeneralized_lt before) (Nat.not_lt_zero n)
  · intro moment member settled n frozen
    have sealed := guards.sealed run moment member settled n frozen
    exact ((state.defaulted_settle typed).frozen sealed.frozen).trans sealed.unlinked

/-- `let rec pair x = (x, x) in let ((a : int option), b) = (None, None) in pair b` -/
def Surface.earlyHint : Surface :=
  let name (text : String) : Ident := ⟨text, default, 0⟩
  let var (text : String) (order : Nat) : Expr Ident Mention TypeExpr Span :=
    .var default ⟨name text, order⟩
  let hint : TypeExpr := .applied default (name "option") [.named default (name "int")]
  { body :=
      .letRec default (name "pair") [⟨name "x", none⟩] none (.tuple default [var "x" 0, var "x" 1])
        (.letTuple default [⟨name "a", some hint⟩, ⟨name "b", none⟩]
          (.tuple default [.none default, .none default]) (.apply default (var "pair" 2) [var "b" 3])) }

/-- The variables of the function and of the second part are frozen in turn, and stay so. -/
theorem Resolved.frozen_unlinked_earlyHint : ∃ resolved typed state,
    Surface.earlyHint.resolve = .ok resolved ∧
    (Infer.program resolved).run (.start {}) = .ok (typed, state) ∧
    ((resolved.record {}).map Moment.frozen, (resolved.record {}).map Moment.pending) =
      ([[], [0, 0, 0], [], [], [], [3], []], List.replicate 7 false) ∧
    ∀ moment ∈ resolved.record {}, moment.pending = false →
      ∀ n ∈ moment.frozen, (state.settle typed).link? n = none := by
  obtain ⟨resolved, typed, resolves, checks, test⟩ :=
    Surface.exists_of_accepted Surface.earlyHint {} fun resolved _ =>
      decide (((resolved.record {}).map Moment.frozen, (resolved.record {}).map Moment.pending) =
        ([[], [0, 0, 0], [], [], [], [3], []], List.replicate 7 false))
  obtain ⟨⟨body, state⟩, run, -⟩ := bind_eq_ok.mp checks
  exact ⟨resolved, body, state, resolves, run, of_decide_eq_true test,
    ((frozen_unlinked resolved {}).2.2 body state run).2⟩

/-- `let rec pair x = (x, x) in let (a, (b : int option)) = pair None in a` -/
def Surface.lateHint : Surface :=
  let name (text : String) : Ident := ⟨text, default, 0⟩
  let var (text : String) (order : Nat) : Expr Ident Mention TypeExpr Span :=
    .var default ⟨name text, order⟩
  let hint : TypeExpr := .applied default (name "option") [.named default (name "int")]
  { body :=
      .letRec default (name "pair") [⟨name "x", none⟩] none (.tuple default [var "x" 0, var "x" 1])
        (.letTuple default [⟨name "a", none⟩, ⟨name "b", some hint⟩]
          (.apply default (var "pair" 2) [.none default]) (var "a" 3)) }

/-- The first part freezes the variable of both, and the annotation of the second part links it. -/
theorem Surface.lateHint_links_frozen : ∃ resolved, lateHint.resolve = .ok resolved ∧
    ¬ (resolved.record {}).Pairwise fun earlier later =>
      ∀ n ∈ earlier.frozen, later.store.link? n = none := by
  have accepted := exists_of_accepted lateHint {} fun resolved _ =>
    decide (¬ (resolved.record {}).Pairwise fun earlier later =>
      ∀ n ∈ earlier.frozen, later.store.link? n = none)
  obtain ⟨resolved, _, resolves, _, test⟩ := accepted
  exact ⟨resolved, resolves, of_decide_eq_true test⟩

end MiddleEnd
