import MiddleEnd.Proofs.Typing.Confined

/-! Inference at an expression keeps all places that it finds. -/

namespace MiddleEnd

open List

variable {type : Ty} {ctx : Context} {op : BinaryOp} {state : Inference} {exprs : List Term}

/-! ### Steps that make variables only -/

namespace Store

variable {store : Store}

theorem Plain.resolve (plain : store.Plain) (without : type.generics = []) :
    (store.resolve type).generics = [] := by
  have expanded := plain.expand without
  rw [← store.expand_resolve] at expanded
  exact (generics_expand_eq_nil.mp expanded).2

end Store

namespace Infer

variable {level : Nat}

theorem leads_made {later : Inference} {numbers : List Nat}
    (made : later.store = (state.store.freshFor level numbers).1)
    (declared : state.Plain → ∀ entry ∈ later.externals.entries, entry.2.type.generics = []) :
    state.Leads later := by
  have spec := state.store.freshFor_spec level numbers
  have keeps : state.store.Keeps later.store := made ▸ spec.grows.keeps
  refine ⟨keeps, fun plain => ⟨plain.store.of_links keeps fun n => ?_, declared plain⟩⟩
  rw [made]
  exact spec.link? n

theorem fresh_leads (state : Inference) (level : Nat) :
    Meets (fun _ => True) (fresh level) state fun type later => state.Leads later ∧ type.generics = [] :=
  .get (.set (.pure ⟨@leads_made state level _ [0] rfl fun plain => plain.externals, rfl⟩))

theorem freshEmpty_leads (state : Inference) (level : Nat) :
    Meets (fun _ => True) (freshEmpty level) state fun type later =>
      state.Leads later ∧ type.generics = [] :=
  .get (.set (.pure ⟨@leads_made state level _ [0] rfl fun plain => plain.externals, rfl⟩))

theorem freshAll_leads (state : Inference) (level count : Nat) :
    Meets (fun _ => True) (freshAll level count) state fun types later =>
      state.Leads later ∧ ∀ type ∈ types, type.generics = [] := by
  induction count generalizing state with
  | zero => exact .pure ⟨.refl state, forall_mem_nil _⟩
  | succ _ ih =>
    refine .bind (fresh_leads state level) fun type middle first => ?_
    refine .map (ih middle) fun types later rest => ?_
    exact ⟨first.1.trans rest.1, forall_mem_cons.mpr ⟨first.2, rest.2⟩⟩

section

variable {aliases : List Ty}

mutual
theorem annotated_leads (plain : ∀ type ∈ aliases, type.generics = []) (hint : Annotation) (state : Inference) :
    Meets (fun _ => True) (annotated aliases level hint) state fun type later =>
      state.Leads later ∧ type.generics = [] := by
  match hint with
  | .hole _ => exact fresh_leads state level
  | .prim _ _ => exact .pure ⟨.refl state, rfl⟩
  | .synonym _ index =>
    rw [annotated]
    split
    · next type found => exact .pure ⟨.refl state, plain type (mem_of_getElem? found)⟩
    · exact .throw trivial
  | .app _ _ element =>
    rw [annotated]
    exact .bind (annotated_leads plain element state) fun _ _ spec => .pure spec
  | .tuple _ elements =>
    rw [annotated]
    refine .bind (annotatedAll_leads plain elements state) fun _ _ spec => .pure ⟨spec.1, ?_⟩
    rw [Ty.generics_tuple]
    exact flatMap_eq_nil_iff.mpr spec.2
  | .function _ params result =>
    rw [annotated]
    refine .bind (annotatedAll_leads plain params state) fun _ middle params => ?_
    refine .bind (annotated_leads plain result middle) fun _ _ result => .pure ⟨params.1.trans result.1, ?_⟩
    rw [Ty.generics_function, flatMap_eq_nil_iff.mpr params.2, result.2]
    rfl
theorem annotatedAll_leads (plain : ∀ type ∈ aliases, type.generics = []) (hints : List Annotation)
    (state : Inference) :
    Meets (fun _ => True) (annotatedAll aliases level hints) state fun types later =>
      state.Leads later ∧ ∀ type ∈ types, type.generics = [] := by
  match hints with
  | [] => exact .pure ⟨.refl state, forall_mem_nil _⟩
  | hint :: hints =>
    rw [annotatedAll]
    refine .bind (annotated_leads plain hint state) fun _ middle first => ?_
    refine .map (annotatedAll_leads plain hints middle) fun _ _ rest => ?_
    exact ⟨first.1.trans rest.1, forall_mem_cons.mpr ⟨first.2, rest.2⟩⟩
end

end

theorem externalType_leads (state : Inference) (name : String) :
    Meets (fun _ => True) (externalType name) state fun type later =>
      state.Leads later ∧ (state.Plain → type.generics = []) := by
  refine .get ?_
  split
  · next external found =>
    exact .pure ⟨.refl state, fun plain => plain.externals _ (NameMap.mem_of_find? found)⟩
  · refine ⟨@leads_made state 0 _ [0] rfl fun plain entry mem => ?_, fun _ => rfl⟩
    rcases mem_cons.mp mem with rfl | mem
    · rfl
    · exact plain.externals entry (mem_filter.mp mem).1

theorem generics_of_isPolymorphic : type.isPolymorphic = true ↔ type.generics ≠ [] := by
  rw [Ty.isPolymorphic, Bool.not_eq_true', isEmpty_eq_false_iff]

theorem instantiate_leads (state : Inference) (level : Nat) (name : String) (scheme : Ty) :
    Meets (fun _ => True) (instantiate level name scheme) state fun made later =>
      state.Leads later ∧ made.type.generics = [] ∧ made.scheme = scheme := by
  have made := state.store.instance_instantiate level scheme
  refine .get (.set (.pure ⟨leads_made rfl fun plain => plain.externals, ?_, rfl⟩))
  rw [eq_nil_iff_forall_not_mem]
  intro n mem
  change n ∈ (state.store.instantiate level scheme).2.1.generics at mem
  rw [made.type_eq, Ty.substGenerics, Ty.mem_generics_subst] at mem
  obtain ⟨source, -, mem⟩ | ⟨source, there, mem⟩ := mem
  · cases mem
  · obtain ⟨_, found, -⟩ := made.lookup there
    rw [found] at mem
    cases mem

def Recorded (ctx : Context) (use : Use) : Prop :=
  ∀ made ∈ use.instantiation, made.scheme.generics ≠ [] ∧
    ∃ entry ∈ ctx.locals, entry.2 = made.scheme

theorem use_leads (state : Inference) (ctx : Context) (level : Nat) (ref : Reference) :
    Meets (fun _ => True) (use ctx level ref) state fun found later =>
      state.Leads later ∧ found.1.generics = [] ∧ (state.Plain → Recorded ctx found.2) := by
  have target : Meets (fun _ => True) (targetType ctx ref.target) state fun type later =>
      state.Leads later ∧ ((∃ entry ∈ ctx.locals, entry.2 = type) ∨ (state.Plain → type.generics = [])) := by
    cases ref.target with
    | bound _ =>
      rw [targetType]
      split
      · next type found => exact .pure ⟨.refl state, .inl ⟨_, mem_of_lookup found, rfl⟩⟩
      · exact .throw trivial
    | external name => exact (externalType_leads state name).weaken fun _ _ spec => ⟨spec.1, .inr spec.2⟩
  unfold use
  refine .bind target fun type middle spec => .get ?_
  obtain ⟨leads, known⟩ := spec
  dsimp only
  split
  · next poly =>
    refine .map (instantiate_leads middle level _ _) ?_
    rintro _ later ⟨rest, without, taken⟩
    refine ⟨leads.trans rest, without, fun plain _ same => ?_⟩
    cases same
    have some_in := generics_of_isPolymorphic.mp poly
    have resolves {type : Ty} (without : type.generics = []) := (leads.plain plain).store.resolve without
    -- Only a variable stands for another type, and none stands for one with placeholders.
    have same : middle.store.resolve type = type := by
      cases type with
      | var _ => exact absurd (resolves rfl) some_in
      | _ => rfl
    rw [taken, same]
    rw [same] at some_in
    exact ⟨some_in, known.resolve_right fun without => some_in (without plain)⟩
  · next mono =>
    refine .pure ⟨leads, ?_, fun _ _ taken => by cases taken⟩
    rwa [generics_of_isPolymorphic, not_not] at mono

end Infer

instance : LawfulMonad RecordM := .mk' RecordM
  (fun computation => by
    funext state
    change (computation >>= fun value => pure value) state = computation state
    rcases run : computation state with ⟨before, stop | ⟨value, later⟩⟩
    · exact RecordM.bind_of_error run
    · rw [RecordM.bind_of_ok run]
      exact congrArg (Prod.mk · _) (List.append_nil before))
  (fun _ _ => rfl)
  (fun computation rest last => by
    funext state
    rcases run : computation state with ⟨before, stop | ⟨value, later⟩⟩
    · rw [RecordM.bind_of_error run, RecordM.bind_of_error (RecordM.bind_of_error run)]
    · rw [RecordM.bind_of_ok run]
      rcases second : rest value later with ⟨between, stop | ⟨result, final⟩⟩
      · rw [RecordM.bind_of_error second, RecordM.bind_of_error ((RecordM.bind_of_ok run).trans (by rw [second]))]
      · rw [RecordM.bind_of_ok second, RecordM.bind_of_ok ((RecordM.bind_of_ok run).trans (by rw [second])),
          List.append_assoc])

namespace Record

open RecordM

variable {leak : Nat → Prop} {level level' : Nat} {play : List Nat} {known : List Site}

/-! ### Single steps -/

theorem retains_quiet {α : Type} {computation : InferM α} {vars : α → List Nat} {fact : α → Prop}
    (guards : Guards level play state (quiet computation state) vars)
    (meets : Meets (fun _ => True) computation state fun value later => state.Leads later ∧ fact value) :
    Retains leak level play known state (quiet computation state) vars (fun value _ => fact value) (fun _ => []) :=
  .of_calm guards (.quiet meets)

section

variable (held : Held ctx level play state)
include held

theorem retains_fresh :
    Retains leak level play known state (quiet (Infer.fresh level) state) Ty.vars
      (fun type _ => type.generics = []) (fun _ => []) :=
  retains_quiet (guards_fresh held.ready) (Infer.fresh_leads state level)

theorem retains_freshEmpty :
    Retains leak level play known state (quiet (Infer.freshEmpty level) state) Ty.vars
      (fun type _ => type.generics = []) (fun _ => []) :=
  retains_quiet (guards_freshEmpty held.ready) (Infer.freshEmpty_leads state level)

theorem retains_annotated (hint : Annotation) :
    Retains leak level play known state (quiet (Infer.annotated ctx.aliases level hint) state) Ty.vars
      (fun type _ => type.generics = []) (fun _ => []) :=
  retains_quiet (guards_annotated hint held.ready held.plays.aliases)
    (Infer.annotated_leads held.aliases hint state)

theorem retains_unify {left right : Ty} (left_plain : left.generics = []) (right_plain : right.generics = [])
    (span : Span)
    (left_known : ∀ other ∈ left.vars, other ∈ play :=
      by simp +contextual [Ty.array, Ty.option, Ty.int, Ty.bool])
    (right_known : ∀ other ∈ right.vars, other ∈ play := by simp +contextual) :
    Retains leak level play known state (unify left right span state) (fun _ => []) (fun _ _ => True)
      (fun _ => []) := by
  have covers {type : Ty} (known : ∀ other ∈ type.vars, other ∈ play) : state.store.Covers type :=
    fun other mem => (held.ready.play other (known other mem)).1
  refine .of_calm (guards_unify held.ready left_known right_known span) ⟨fun _ _ _ => ?_, fun run => ?_,
    fun _ => trivial⟩
  · exact forall_mem_singleton.mpr not_mem_nil
  · obtain ⟨-, rfl⟩ := Infer.unify_run run
    obtain ⟨keeps, plain⟩ :=
      held.plain.store.unify (covers left_known) (covers right_known) left_plain right_plain
    exact ⟨keeps, fun _ => ⟨plain, held.plain.externals⟩⟩

theorem retains_checkHint (hint : Option Annotation) (known_vars : ∀ other ∈ type.vars, other ∈ play)
    (plain : type.generics = []) (span : Span) :
    Retains leak level play known state (checkHint ctx level hint type span state) (fun _ => [])
      (fun _ _ => True) (fun _ => []) := by
  cases hint with
  | none => exact .pure held (fun _ mem => nomatch mem) trivial (forall_mem_nil _)
  | some hint =>
    refine .bind held (retains_annotated held hint) fun _ _ held without => ?_
    exact retains_unify held without plain span (fun _ mem => mem_append_left _ mem)
      fun other mem => mem_append_right _ (known_vars other mem)

end

theorem generalize_run {pending : Bool} {scheme : Ty} {later : Inference}
    (run : (generalize level type pending state).2 = .ok (scheme, later)) :
    scheme = (state.store.generalize level type).2 ∧
      later = { state with store := (state.store.generalize level type).1 } := by
  cases run
  exact ⟨rfl, rfl⟩

theorem calm_generalize (held : Held ctx level' play state)
    (known_vars : ∀ other ∈ type.vars, other ∈ play) (plain : type.generics = []) (name : Symbol)
    (pending : Bool) : Calm play state (generalize level type pending state) fun scheme later =>
      Freezes (generalize level type pending state).1 [⟨name, scheme⟩] later := by
  have same := state.store.sameLinks_generalize level type
  have keeps : state.store.Keeps (state.store.generalize level type).1 :=
    (state.store.grows_generalize level type).keeps
  have covers : state.store.Covers type := fun other mem =>
    (held.ready.play other (known_vars other mem)).1
  have without := held.plain.store.expand plain
  refine ⟨fun _ _ hidden => forall_mem_singleton.mpr fun frozen => ?_, fun run => ?_, fun run => ?_⟩
  · obtain ⟨other, there, mem⟩ := Store.mem_vars_expand.mp (mem_filter.mp frozen).1
    exact (hidden.play other (known_vars other there)).2 _ mem rfl
  · obtain ⟨-, rfl⟩ := generalize_run run
    exact ⟨keeps, fun _ => ⟨held.plain.store.of_links keeps same.2, held.plain.externals⟩⟩
  · obtain ⟨rfl, rfl⟩ := generalize_run run
    refine ⟨forall_mem_singleton.mpr fun n mem => ?_,
      forall_mem_singleton.mpr fun n mem => ⟨_, .head _, ?_⟩⟩
    · obtain ⟨there, deep⟩ := (Store.mem_generics_generalize without).mp mem
      refine Store.isGeneralized_foldl_freeze (.inr ⟨?_, covers.expand n there⟩)
      exact mem_filter.mpr ⟨there, decide_eq_true deep⟩
    · obtain ⟨there, deep⟩ := mem_filter.mp mem
      exact (Store.mem_generics_generalize without).mpr ⟨there, of_decide_eq_true deep⟩

/-! ### Bindings -/

def definition (ctx : Context) (level : Nat) (binder : Binder Symbol Annotation) (type : Ty)
    (pending : Bool) : RecordM (Binder Bound Annotation) := do
  checkHint ctx (level + 1) binder.hint type binder.name.span
  let scheme ← generalize level type pending
  return ⟨⟨binder.name, scheme⟩, binder.hint⟩

theorem elements_cons (ctx : Context) (level : Nat) (binder : Binder Symbol Annotation)
    (binders : List (Binder Symbol Annotation)) (type : Ty) (types : List Ty) :
    elements ctx level (binder :: binders) (type :: types) = (do
      let first ← definition ctx level binder type (binders.any fun other => other.hint.isSome)
      let rest ← elements ctx level binders types
      return first :: rest) := by
  rw [elements]
  simp only [definition, bind_assoc, RecordM.pure_bind]

theorem expr_letIn (ctx : Context) (level : Nat) (span : Span) (binder : Binder Symbol Annotation)
    (bound body : Term) :
    expr ctx level (.letIn span binder bound body) = (do
      let (bound, binder) ← expr ctx (level + 1) bound >>= fun bound =>
        definition ctx level binder bound.type false >>= fun binder => pure (bound, binder)
      let body ← expr (ctx.bind binder.name.symbol binder.name.type) level body
      return .letIn ⟨span, body.type⟩ binder bound body) := by
  rw [expr]
  simp only [definition, bind_assoc, RecordM.pure_bind]

/-- The parameters, the type of the result and the body of a recursive function. -/
def function (ctx : Context) (level : Nat) (name : Symbol) (params : List (Binder Symbol Annotation))
    (result : Option Annotation) (body : Expr Symbol Reference Annotation Span) :
    RecordM (List (Binder Bound Annotation) × Ty × TypedExpr) := do
  let (params, returned) ← signature ctx level params result
  let body ← expr ((ctx.bindAll params).bind name (Bound.function params returned)) level body
  unify returned body.type body.span
  return (params, returned, body)

theorem expr_letRec (ctx : Context) (level : Nat) (span : Span) (name : Symbol)
    (params : List (Binder Symbol Annotation)) (result : Option Annotation)
    (body rest : Term) :
    expr ctx level (.letRec span name params result body rest) = (do
      let ((params, _, body), binder) ← function ctx (level + 1) name params result body >>=
        fun made => definition ctx level ⟨name, none⟩ (Bound.function made.1 made.2.1) false >>=
          fun binder => pure (made, binder)
      let rest ← expr (ctx.bind binder.name.symbol binder.name.type) level rest
      return .letRec ⟨span, rest.type⟩ binder.name params result body rest) := by
  rw [expr]
  simp only [function, definition, checkHint, bind_assoc, RecordM.pure_bind]

def parted (ctx : Context) (level count : Nat) (bound : Expr Symbol Reference Annotation Span) :
    RecordM (TypedExpr × List Ty) := do
  let bound ← expr ctx level bound
  let types ← quiet (Infer.freshAll level count)
  unify bound.type (.tuple types) bound.span
  return (bound, types)

theorem expr_letTuple (ctx : Context) (level : Nat) (span : Span) (binders : List (Binder Symbol Annotation))
    (bound body : Term) :
    expr ctx level (.letTuple span binders bound body) = (do
      let ((bound, _), binders) ← parted ctx (level + 1) binders.length bound >>= fun made =>
        elements ctx level binders made.2 >>= fun binders => pure (made, binders)
      let body ← expr (ctx.bindAll binders) level body
      return .letTuple ⟨span, body.type⟩ binders bound body) := by
  rw [expr]
  simp only [parted, bind_assoc, RecordM.pure_bind]

theorem frozen_checkHint {hint : Option Annotation} {span : Span} {later : Inference}
    (run : (checkHint ctx level hint type span state).2 = .ok ((), later)) :
    ∀ moment ∈ (checkHint ctx level hint type span state).1, moment.frozen = [] := by
  cases hint with
  | none => exact forall_mem_nil _
  | some _ =>
    rw [checkHint] at run ⊢
    obtain ⟨_, _, first_run, -⟩ := exists_of_bind run
    rw [moments_bind first_run]
    exact forall_mem_singleton.mpr rfl

theorem closing_definition (held : Held ctx (level + 1) play state)
    (binder : Binder Symbol Annotation) (known_vars : ∀ other ∈ type.vars, other ∈ play)
    (plain : type.generics = []) (pending : Bool) :
    Closing level play state (definition ctx level binder type pending state)
      (fun binder => binder.name.type.vars) (fun binder => [binder.name]) := by
  have hint : Retains (fun _ => False) (level + 1) play [] state _ _ _ _ :=
    retains_checkHint held binder.hint known_vars plain binder.name.span
  have onward {middle : Inference} (run : (checkHint ctx (level + 1) binder.hint type binder.name.span state).2 =
      .ok ((), middle)) : Held ctx (level + 1) play middle :=
    held.after (hint.guards.advances run) (hint.calm.leads run)
  refine ⟨hint.guards.bind_keep (Nat.le_succ level) fun _ middle run _ => ?_,
    .bind hint.guards hint.calm fun _ middle run _ => ?_⟩
  · refine ⟨play, fun _ mem => mem, (onward run).ready, ?_⟩
    refine (guards_generalize (onward run).ready known_vars (Nat.le_refl level)
      fun _ => Nat.le_refl level).bind_keep (Nat.le_refl level) fun scheme later _ advances => ?_
    have ready : Ready level scheme.vars later := ⟨advances.vars, advances.outer⟩
    exact ⟨_, fun _ mem => mem_append_left _ mem, ready, .pure ready fun _ mem => mem⟩
  · refine .bind (guards_generalize (onward run).ready known_vars (Nat.le_refl level)
      fun _ => Nat.le_refl level) (calm_generalize (onward run) known_vars plain binder.name pending)
      fun scheme later scheme_run freezes => .pure ⟨freezes.marked, ?_⟩
    rw [definition, moments_bind run, moments_bind scheme_run]
    refine forall_mem_append.mpr ⟨fun moment mem _ frozen => ?_,
      forall_mem_append.mpr ⟨freezes.frozen, forall_mem_nil _⟩⟩
    rw [frozen_checkHint run moment mem] at frozen
    cases frozen

theorem closing_elements (held : Held ctx (level + 1) play state) (binders : List (Binder Symbol Annotation))
    {types : List Ty} (known_vars : ∀ type ∈ types, ∀ other ∈ type.vars, other ∈ play)
    (plain : ∀ type ∈ types, type.generics = []) :
    Closing level play state (elements ctx level binders types state) boundVars
      (fun binders => binders.map Binder.name) := by
  refine ⟨guards_elements held.ready held.plays binders known_vars, ?_⟩
  induction binders generalizing types play state with
  | nil =>
    rw [elements]
    · exact .pure ⟨forall_mem_nil _, forall_mem_nil _⟩
    · simp
  | cons binder binders ih =>
    cases types with
    | nil => exact .pure ⟨forall_mem_nil _, forall_mem_nil _⟩
    | cons type types =>
      obtain ⟨type_known, types_known⟩ := forall_mem_cons.mp known_vars
      obtain ⟨type_plain, types_plain⟩ := forall_mem_cons.mp plain
      rw [elements_cons]
      have closing := closing_definition held binder type_known type_plain (binders.any fun other => other.hint.isSome)
      refine .bind closing.guards closing.calm fun first _ run freezes => ?_
      have advances := closing.guards.advances run
      have held := (held.after advances (closing.calm.leads run)).and fun other mem =>
        (advances.vars other mem).mono (Nat.le_succ level)
      have rest_known : ∀ type ∈ types, ∀ other ∈ type.vars, other ∈ first.name.type.vars ++ play :=
        fun type mem other here => mem_append_right _ (types_known type mem other here)
      have rest_guards := guards_elements held.ready held.plays binders rest_known
      refine .bind rest_guards (ih held rest_known types_plain) fun _ _ rest_run rest_freezes => .pure ?_
      rw [moments_bind run, moments_bind rest_run]
      refine ⟨forall_mem_cons.mpr ⟨fun n mem => ?_, rest_freezes.marked⟩,
        forall_mem_append.mpr ⟨fun moment mem n frozen => ?_,
          forall_mem_append.mpr ⟨fun moment mem n frozen => ?_, forall_mem_nil _⟩⟩⟩
      · exact (rest_guards.advances rest_run).frozen (freezes.marked _ (.head _) n mem)
      · obtain ⟨bound, there, here⟩ := freezes.frozen moment mem n frozen
        exact ⟨bound, mem_append_left _ there, here⟩
      · obtain ⟨bound, there, here⟩ := rest_freezes.frozen moment mem n frozen
        exact ⟨bound, mem_cons_of_mem _ there, here⟩

section

variable (held : Held ctx level play state)
include held

theorem retains_use (ref : Reference) :
    Retains leak level play known state (quiet (Infer.use ctx level ref) state) (fun found => found.1.vars)
      (fun found _ => found.1.generics = []) (fun found => [{ type := found.1, use := found.2 }]) := by
  have meets := Infer.use_leads state ctx level ref
  have guards := guards_use held.ready held.plays ref
  have calm : Calm play state (quiet (Infer.use ctx level ref) state) fun found _ =>
    found.1.generics = [] := .quiet (meets.weaken fun _ _ spec => ⟨spec.1, spec.2.1⟩)
  refine ⟨guards, calm, fun {barred found later} run leaks confined => forall_mem_singleton.mpr ?_⟩
  have advances := guards.advances run
  have after := confined.after held.ready guards calm run leaks
  have opens : Site.Opens (found.1.vars ++ play) { type := found.1 } :=
    ⟨calm.fact run, fun _ mem => mem_append_left _ mem, rfl⟩
  have kept : Site.Kept leak barred level later { type := found.1 } :=
    opens.kept ((held.ready.after advances).and advances.vars) after.hidden
  refine ⟨kept.covers, kept.plain, kept.apart, kept.frozen, fun made taken => ?_⟩
  obtain ⟨-, -, recorded⟩ := meets.of_run run
  obtain ⟨some_in, entry, mem, scheme_eq⟩ := recorded held.plain made taken
  refine ⟨some_in, fun n quantified => ?_⟩
  rw [← scheme_eq] at quantified ⊢
  have marked := held.frozen entry mem n quantified
  refine ⟨advances.frozen marked, (confined.clean n marked).imp_right fun hidden other here => ?_⟩
  exact (guards.spares run hidden).behind (hidden.play other (held.plays.locals entry mem other here))

theorem retains_parameters (params : List (Binder Symbol Annotation)) :
    Retains leak level play known state (parameters ctx level params state) boundVars
      (fun params _ => ∀ param ∈ params, param.name.type.generics = []) (fun _ => []) := by
  induction params generalizing play known state with
  | nil => exact .pure held (fun _ mem => nomatch mem) (forall_mem_nil _) (forall_mem_nil _)
  | cons _ _ ih =>
    rw [parameters]
    refine .bind held (retains_fresh held) fun type _ held plain => ?_
    refine .bind held (retains_checkHint held _ (fun _ mem => mem_append_left _ mem) plain _)
      fun _ _ held _ => ?_
    refine .bind held (ih held) fun _ _ held rest => .pure held ?_ (forall_mem_cons.mpr ⟨plain, rest⟩)
      (forall_mem_nil _)
    simp only [boundVars, flatMap_cons, mem_append]
    grind

theorem retains_signature (params : List (Binder Symbol Annotation))
    (result : Option Annotation) :
    Retains leak level play known state (signature ctx level params result state)
      (fun signed => boundVars signed.1 ++ signed.2.vars)
      (fun signed _ => (∀ param ∈ signed.1, param.name.type.generics = []) ∧ signed.2.generics = [])
      (fun _ => []) := by
  refine .bind held (retains_parameters held params) fun params _ held params_plain => ?_
  refine .bind held (retains_fresh held) fun _ _ held plain => ?_
  refine .bind held (retains_checkHint held _ (fun _ mem => mem_append_left _ mem) plain _)
    fun _ _ held _ => .pure held ?_ ⟨params_plain, plain⟩ (forall_mem_nil _)
  simp only [mem_append]
  grind

end

/-! ### Expressions -/

def Keeps (leak : Nat → Prop) (ctx : Context) (level : Nat) (source : Expr Symbol Reference Annotation Span) :
    Prop :=
  ∀ ⦃play : List Nat⦄ ⦃known : List Site⦄ ⦃state : Inference⦄, Held ctx level play state →
    Retains leak level play known state (expr ctx level source state) (fun typed => typed.type.vars)
      (fun typed _ => typed.type.generics = []) Expr.sites

theorem retains_exprs (each : ∀ source ∈ exprs, Keeps leak ctx level source)
    (held : Held ctx level play state) :
    Retains leak level play known state (Record.exprs ctx level exprs state)
      (fun typed => typed.flatMap fun part => part.type.vars)
      (fun typed _ => ∀ part ∈ typed, part.type.generics = []) (fun typed => typed.flatMap Expr.sites) := by
  induction exprs generalizing play known state with
  | nil => exact .pure held (fun _ mem => nomatch mem) (forall_mem_nil _) (forall_mem_nil _)
  | cons first rest ih =>
    rw [Record.exprs]
    refine .bind held (each first (.head _) held) fun first _ held plain => ?_
    refine .bind held (ih (fun expr mem => each expr (.tail _ mem)) held)
      fun rest _ held rest_plain => .pure held ?_ (forall_mem_cons.mpr ⟨plain, rest_plain⟩) ?_
    · simp only [flatMap_cons, mem_append]
      grind
    · simp only [flatMap_cons, mem_append]
      grind

theorem retains_alike (each : ∀ source ∈ exprs, Keeps leak ctx level source)
    (held : Held ctx level play state) (known_vars : ∀ other ∈ type.vars, other ∈ play)
    (plain : type.generics = []) :
    Retains leak level play known state (alike ctx level type exprs state) (fun _ => []) (fun _ _ => True)
      (fun typed => typed.flatMap Expr.sites) := by
  induction exprs generalizing play known state with
  | nil => exact .pure held (fun _ mem => nomatch mem) trivial (forall_mem_nil _)
  | cons first rest ih =>
    have known' (more : List Nat) : ∀ other ∈ type.vars, other ∈ more ++ play :=
      fun other mem => mem_append_right _ (known_vars other mem)
    rw [alike]
    refine .bind held (each first (.head _) held) fun first _ held first_plain => ?_
    refine .bind held (retains_unify held plain first_plain _ (known' _) fun _ mem => mem_append_left _ mem)
      fun _ _ held _ => ?_
    refine .bind held (ih (fun expr mem => each expr (.tail _ mem)) held (known' _))
      fun rest _ held _ => .pure held (fun _ mem => nomatch mem) trivial ?_
    simp only [flatMap_cons, mem_append]
    grind

theorem retains_node {typed : TypedExpr} (held : Held ctx level play state)
    (plain : typed.type.generics = [])
    (known_vars : ∀ other ∈ typed.type.vars, other ∈ play :=
      by simp +contextual [Expr.type, Expr.note, Ty.array, Ty.option, Ty.int, Ty.unit, Ty.bool])
    (parts : ∀ site ∈ typed.sites, site = typed.note.site ∨ site ∈ known :=
      by simp +contextual [Expr.sites, Expr.note, or_imp]) :
    Retains leak level play known state ((pure typed : RecordM TypedExpr) state) (fun typed => typed.type.vars)
      (fun typed _ => typed.type.generics = []) Expr.sites := by
  refine .pure held known_vars plain fun site mem => (parts site mem).imp_left ?_
  rintro rfl
  exact ⟨plain, known_vars, rfl⟩

theorem retains_function {body : Term}
    (keeps : ∀ ctx, Keeps leak ctx level body) (name : Symbol) (params : List (Binder Symbol Annotation))
    (result : Option Annotation) (held : Held ctx level play state) :
    Retains leak level play known state (function ctx level name params result body state)
      (fun made => (Bound.function made.1 made.2.1).vars)
      (fun made _ => (Bound.function made.1 made.2.1).generics = [])
      (fun made => made.1.map Binder.site ++ made.2.2.sites) := by
  refine .bind held (retains_signature held params result) fun signed _ held plain => ?_
  obtain ⟨params, returned⟩ := signed
  obtain ⟨params_plain, returned_plain⟩ := plain
  have function_vars : ∀ other ∈ (Bound.function params returned).vars,
      other ∈ boundVars params ++ returned.vars := by
    simp +contextual [Bound.function, boundVars, flatMap_map]
  have function_plain : (Bound.function params returned).generics = [] := by
    simpa [Bound.function, flatMap_map, returned_plain] using params_plain
  have inner := (held.bindAll params (by simp +contextual) fun param mem => ?_).bind name
    (fun other mem => mem_append_left _ (function_vars other mem)) (by simp [function_plain])
  · refine .bind held (keeps _ inner) fun body _ held body_plain => ?_
    have deep : ∀ other ∈ boundVars params ++ returned.vars,
        other ∈ [] ++ (body.type.vars ++ ((boundVars params ++ returned.vars) ++ play)) :=
      fun _ mem => mem_append_right _ (mem_append_right _ (mem_append_left _ mem))
    refine .bind held (retains_unify held returned_plain body_plain _)
      fun _ _ held _ => .pure held (fun other mem => deep other (function_vars other mem)) function_plain
        (forall_mem_append.mpr ⟨fun site mem => .inl ?_, by simp +contextual⟩)
    obtain ⟨param, there, rfl⟩ := mem_map.mp mem
    refine ⟨params_plain param there, fun other here => deep other (mem_append_left _ ?_), rfl⟩
    exact mem_flatMap.mpr ⟨param, there, here⟩
  · simp [params_plain param mem]

theorem retains_parted {bound : Term} (keeps : Keeps leak ctx level bound)
    (count : Nat) (held : Held ctx level play state) :
    Retains leak level play known state (parted ctx level count bound state)
      (fun made => made.2.flatMap Ty.vars) (fun made _ => ∀ type ∈ made.2, type.generics = [])
      (fun made => made.1.sites) := by
  refine .bind held (keeps held) fun bound _ held bound_plain => ?_
  refine .bind held (retains_quiet (guards_freshAll held.ready count) (Infer.freshAll_leads _ level count))
    fun _ _ held types_plain => ?_
  refine .bind held (retains_unify held bound_plain ?_ _)
    fun _ _ held _ => .pure held (by simp +contextual) types_plain (by simp +contextual)
  rw [Ty.generics_tuple]
  exact flatMap_eq_nil_iff.mpr types_plain

theorem keeps_expr (source : Term) : Keeps leak ctx level source := by
  intro play known state held
  induction source using Expr.induction generalizing play known state level ctx with
  | lit _ value =>
    obtain ⟨_, plain⟩ := value.ty_prim
    rw [expr, plain]
    exact retains_node held rfl
  | var _ ref =>
    rw [expr]
    refine .bind held (retains_use held ref) fun _ _ held plain => .pure held ?_ plain ?_
    · exact fun _ mem => mem_append_left _ mem
    · exact forall_mem_singleton.mpr (.inr (.head _))
  | unary _ op operand ih =>
    obtain ⟨_, plain⟩ := op.operand_prim
    rw [expr, plain]
    refine .bind held (ih held) fun operand _ held operand_plain => ?_
    refine .bind held (retains_unify held rfl operand_plain _) fun _ _ held _ => retains_node held rfl
  | binary _ op lhs rhs lhs_ih rhs_ih =>
    rw [expr]
    refine .bind held (lhs_ih held) fun lhs _ held lhs_plain => ?_
    refine .bind held (rhs_ih held) fun rhs _ held rhs_plain => ?_
    cases known : op.operand? with
    | some _ =>
      obtain ⟨_, rfl⟩ := BinaryOp.operand_prim known
      refine .bind held (retains_unify held rfl lhs_plain _) fun _ _ held _ => ?_
      refine .bind held (retains_unify held rfl rhs_plain _) fun _ _ held _ => retains_node held rfl
    | none =>
      refine .bind held (retains_unify held lhs_plain rhs_plain _) fun _ _ held _ => retains_node held rfl
  | cond _ test yes no test_ih yes_ih no_ih =>
    rw [expr]
    refine .bind held (test_ih held) fun test _ held test_plain => ?_
    refine .bind held (retains_unify held rfl test_plain _) fun _ _ held _ => ?_
    refine .bind held (yes_ih held) fun yes _ held yes_plain => ?_
    refine .bind held (no_ih held) fun no _ held no_plain => ?_
    refine .bind held (retains_unify held yes_plain no_plain _)
      fun _ _ held _ => retains_node held yes_plain
  | letIn _ binder bound body bound_ih body_ih =>
    rw [expr_letIn]
    refine .bind held (.leave held (bound_ih held.deeper) fun bound _ held plain =>
      closing_definition held binder (by simp +contextual) plain false) fun ended _ held frozen => ?_
    obtain ⟨bound, binder⟩ := ended
    refine .bind held (body_ih (held.bind binder.name.symbol (by simp +contextual) (by simpa using frozen)))
      fun body _ held plain => retains_node held plain
  | letRec _ name params result body rest body_ih rest_ih =>
    rw [expr_letRec]
    refine .bind held (.leave held (retains_function (fun _ _ _ _ held => body_ih held) name params result
      held.deeper) fun made _ held plain => closing_definition held ⟨name, none⟩ (by simp +contextual) plain
      false) fun ended _ held frozen => ?_
    obtain ⟨⟨params, returned, body⟩, binder⟩ := ended
    refine .bind held (rest_ih (held.bind binder.name.symbol (by simp +contextual) (by simpa using frozen)))
      fun rest _ held plain => retains_node held plain
  | letTuple _ binders bound body bound_ih body_ih =>
    rw [expr_letTuple]
    refine .bind held (.leave held (retains_parted (fun _ _ _ held => bound_ih held) binders.length held.deeper)
      fun made _ held plain => closing_elements held binders (fun type mem _ here => ?_) plain)
      fun ended _ held frozen => ?_
    · exact mem_append_left _ (mem_flatMap.mpr ⟨type, mem, here⟩)
    obtain ⟨⟨bound, _⟩, binders⟩ := ended
    refine .bind held (body_ih (held.bindAll binders (by simp +contextual) (by simpa using frozen)))
      fun body _ held plain => retains_node held plain
  | apply _ callee args callee_ih args_ih =>
    rw [expr]
    refine .bind held (callee_ih held) fun callee _ held callee_plain => ?_
    refine .bind held (retains_exprs (fun arg mem _ _ _ held => args_ih arg mem held) held)
      fun args _ held args_plain => ?_
    refine .bind held (retains_fresh held) fun returned _ held plain => ?_
    refine .bind held (retains_unify held callee_plain ?_ _ (by simp +contextual) ?_) fun _ _ held _ =>
      retains_node held plain
    · simpa [flatMap_map, plain] using args_plain
    · simp only [Ty.vars_function, flatMap_map, mem_append]
      grind
  | tuple _ elements ih =>
    rw [expr]
    refine .bind held (retains_exprs (fun element mem _ _ _ held => ih element mem held) held)
      fun elements _ held plain => retains_node held ?_
    simpa [Expr.type, Expr.note] using plain
  | arrayMake _ size element size_ih element_ih =>
    rw [expr]
    refine .bind held (size_ih held) fun size _ held size_plain => ?_
    refine .bind held (retains_unify held rfl size_plain _) fun _ _ held _ => ?_
    refine .bind held (element_ih held) fun element _ held plain => retains_node held plain
  | arrayLit _ elements ih =>
    cases elements with
    | nil =>
      rw [expr]
      refine .bind held (retains_freshEmpty held) fun element _ held plain => retains_node held plain
    | cons first rest =>
      rw [expr]
      refine .bind held (ih first (.head _) held) fun first _ held plain => ?_
      refine .bind held (retains_alike (fun element mem _ _ _ held =>
        ih element (.tail _ mem) held) held (by simp +contextual) plain)
        fun rest _ held _ => retains_node held plain
  | arrayLen _ array ih =>
    rw [expr]
    refine .bind held (ih held) fun array _ held array_plain => ?_
    refine .bind held (retains_fresh held) fun element _ held plain => ?_
    have whole_plain : (Ty.array element).generics = [] := plain
    refine .bind held (retains_unify held whole_plain array_plain _) fun _ _ held _ => retains_node held rfl
  | arrayGet _ array index array_ih index_ih =>
    rw [expr]
    refine .bind held (array_ih held) fun array _ held array_plain => ?_
    refine .bind held (retains_fresh held) fun element _ held plain => ?_
    have whole_plain : (Ty.array element).generics = [] := plain
    refine .bind held (retains_unify held whole_plain array_plain _) fun _ _ held _ => ?_
    refine .bind held (index_ih held) fun index _ held index_plain => ?_
    refine .bind held (retains_unify held rfl index_plain _) fun _ _ held _ => retains_node held plain
  | arraySet _ array index value array_ih index_ih value_ih =>
    rw [expr]
    refine .bind held (array_ih held) fun array _ held array_plain => ?_
    refine .bind held (retains_fresh held) fun element _ held plain => ?_
    have whole_plain : (Ty.array element).generics = [] := plain
    refine .bind held (retains_unify held whole_plain array_plain _) fun _ _ held _ => ?_
    refine .bind held (index_ih held) fun index _ held index_plain => ?_
    refine .bind held (retains_unify held rfl index_plain _) fun _ _ held _ => ?_
    refine .bind held (value_ih held) fun value _ held value_plain => ?_
    refine .bind held (retains_unify held plain value_plain _) fun _ _ held _ => retains_node held rfl
  | some _ element ih =>
    rw [expr]
    refine .bind held (ih held) fun element _ held plain => retains_node held plain
  | none _ =>
    rw [expr]
    refine .bind held (retains_freshEmpty held) fun element _ held plain => retains_node held plain
  | matchOption _ target binder someArm noneArm target_ih some_ih none_ih =>
    rw [expr]
    refine .bind held (target_ih held) fun target _ held target_plain => ?_
    refine .bind held (retains_fresh held) fun element _ held plain => ?_
    have option_plain : (Ty.option element).generics = [] := plain
    refine .bind held (retains_unify held option_plain target_plain _) fun _ _ held _ => ?_
    refine .bind held (retains_checkHint held _ (by simp +contextual) plain _) fun _ _ held _ => ?_
    refine .bind held (some_ih (held.bind binder.name (by simp +contextual) (by simp [plain])))
      fun someArm _ held some_plain => ?_
    refine .bind held (none_ih held) fun noneArm _ held none_plain => ?_
    refine .bind held (retains_unify held some_plain none_plain _)
      fun _ _ held _ => .pure held (by simp +contextual [Expr.type, Expr.note]) some_plain ?_
    refine forall_mem_cons.mpr ⟨.inl ⟨some_plain, by simp +contextual [Note.site], rfl⟩,
      forall_mem_cons.mpr ⟨.inl ⟨plain, by simp +contextual [Binder.site], rfl⟩, ?_⟩⟩
    simp +contextual [or_imp]
  | typed _ child hint ih =>
    rw [expr]
    refine .bind held (ih held) fun child _ held plain => ?_
    refine .bind held (retains_annotated held hint) fun type _ held type_plain => ?_
    refine .bind held (retains_unify held type_plain plain _) fun _ _ held _ => retains_node held plain

end Record

end MiddleEnd
