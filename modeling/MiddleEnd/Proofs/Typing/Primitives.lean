import MiddleEnd.Proofs.Scope.Scoped
import MiddleEnd.Proofs.Typing.Derives

/-! What the single steps of inference do: none of them runs into a fault, types stay at their
levels, and the types that are handed out are as the typing rules want them. -/

namespace MiddleEnd

open List

variable {state : Inference} {level level' : Nat} {ctx : Context} {scope : List Symbol} {type : Ty}
  {store : Store} {first : Inference}

def Stop.IsRejection : Stop → Prop
  | .rejected _ => True
  | .fault _ => False

namespace Inference

def Good (state : Inference) : Prop :=
  ∀ entry ∈ state.externals.entries, state.store.Mono 0 entry.2.type

structure Steps (state later : Inference) : Prop where
  reached : state.Extends later
  good : later.Good

theorem Steps.trans {second third : Inference} (left : first.Steps second) (right : second.Steps third) :
    first.Steps third :=
  ⟨left.reached.trans right.reached, right.good⟩

theorem Steps.mono {later : Inference} (steps : state.Steps later) (mono : state.store.Mono level type) :
    later.store.Mono level type :=
  steps.reached.grows.mono mono

theorem Good.steps (good : state.Good) (grows : state.store.Grows store)
    (frozen : ∀ n, state.store.isGeneralized n = true → store.isGeneralized n = true)
    (empties : List Nat) : state.Steps { state with store, empties } :=
  ⟨⟨grows, fun before => frozen _ before, id⟩, fun entry mem => grows.mono (good entry mem)⟩

end Inference

theorem NameMap.mem_of_find? {α : Type} {map : NameMap α} {name : String} {value : α}
    (found : map.find? name = some value) : (name, value) ∈ map.entries :=
  mem_of_lookup found

namespace Infer

abbrev Infers {α : Type} (computation : InferM α) (state : Inference)
    (post : α → Inference → Prop) : Prop :=
  Meets Stop.IsRejection computation state post

theorem unify_spec (good : state.Good) {left right : Ty} (left_mono : state.store.Mono level left)
    (right_mono : state.store.Mono level' right) (span : Span) :
    Infers (unify left right span) state fun _ later => state.Steps later ∧ later.Same left right := by
  have attempt := Store.attempt_unify left_mono.admits right_mono.admits
  have grows := Store.grows_unify left_mono right_mono
  refine .get ?_
  split
  · next store unified =>
    rw [unified] at attempt grows
    refine ⟨good.steps grows (fun n before => ?_) state.empties, attempt.equal rfl⟩
    exact (attempt.unified.isGeneralized n).trans before
  · next store clash failed =>
    have failure : (state.store.unify left right).2 = some clash := by rw [failed]
    have ends := Store.unify_ends left_mono.admits right_mono.admits failure
    rw [failed] at attempt grows
    obtain ⟨_, _, told⟩ := (attempt.shown rfl).explain ends (grows.mono left_mono).covers
      (grows.mono right_mono).covers
    rw [told]
    exact .throw trivial

end Infer

@[simp] theorem Context.aliases_bindAll (ctx : Context)
    (binders : List (Binder Bound Annotation)) : (ctx.bindAll binders).aliases = ctx.aliases := by
  induction binders generalizing ctx with
  | nil => rfl
  | cons _ _ ih => exact ih _

structure Context.At (ctx : Context) (state : Inference) (level : Nat) (scope : List Symbol) :
    Prop where
  aliases : ∀ type ∈ ctx.aliases, state.store.Mono 0 type
  locals : ∀ entry ∈ ctx.locals, state.store.Scheme level entry.2
  visible : ∀ symbol ∈ scope, ∃ type, ctx.locals.lookup symbol.number = some type

namespace Context.At

section

variable (fits : ctx.At state level scope)
include fits

theorem later {state' : Inference} (steps : state.Steps state') : ctx.At state' level scope :=
  ⟨fun type mem => steps.mono (fits.aliases type mem),
    fun entry mem => steps.reached.grows.scheme (fits.locals entry mem), fits.visible⟩

theorem visible_of {scope' : List Symbol}
    (subset : ∀ symbol ∈ scope', symbol ∈ scope) : ctx.At state level scope' :=
  ⟨fits.aliases, fits.locals, fun symbol mem => fits.visible symbol (subset symbol mem)⟩

theorem deeper : ctx.At state (level + 1) scope :=
  ⟨fits.aliases, fun entry mem => (fits.locals entry mem).mono (Nat.le_succ level), fits.visible⟩

theorem bind (symbol : Symbol)
    (scheme : state.store.Scheme level type) :
    (ctx.bind symbol type).At state level (symbol :: scope) := by
  refine ⟨fits.aliases, fun entry mem => ?_, fun other mem => ?_⟩
  · rcases mem_cons.mp mem with rfl | mem
    · exact scheme
    · exact fits.locals entry mem
  · simp only [Context.bind, List.lookup_cons]
    split
    · exact ⟨type, rfl⟩
    · next differs =>
      rcases mem_cons.mp mem with rfl | mem
      · simp at differs
      · exact fits.visible other mem

theorem bindAll (binders : List (Binder Bound Annotation))
    (schemes : ∀ binder ∈ binders, state.store.Scheme level binder.name.type) :
    (ctx.bindAll binders).At state level ((binders.map Binder.erase).map Binder.name ++ scope) := by
  induction binders generalizing ctx scope with
  | nil => exact fits
  | cons binder _ ih =>
    have rest := ih (fits.bind binder.name.symbol (schemes binder (.head _)))
      fun other mem => schemes other (.tail _ mem)
    refine rest.visible_of fun symbol mem => ?_
    simp only [Binder.erase, map_cons, mem_cons, mem_append] at mem ⊢
    grind

end

end Context.At

theorem Parted.earlier {start : Inference} {binders : List (Binder Bound Annotation)} {types : List Ty}
    (parted : Parted start state ctx binders types) (steps : first.Extends start) :
    Parted first state ctx binders types := by
  induction parted with
  | nil => exact .nil
  | cons reached hinted generalized _ ih => exact .cons (steps.trans reached) hinted generalized ih

namespace Infer

theorem generalize_spec (good : state.Good) (fits : ctx.At state level scope)
    (mono : state.store.Mono level' type) :
    Infers (generalize level type) state fun scheme later =>
      state.Steps later ∧ later.store.Scheme level scheme ∧
        Generalized state later ctx type scheme := by
  have frozen (n : Nat) (before : state.store.isGeneralized n = true) :
      (state.store.generalize level type).1.isGeneralized n = true :=
    Store.isGeneralized_foldl_freeze (.inl before)
  have steps := good.steps (state.store.grows_generalize level type) frozen state.empties
  have deeper {n : Nat} (mem : n ∈ (state.store.generalize level type).2.generics) :
      n ∈ (state.store.expand type).vars ∧ level < state.store.level n := by
    simp only [Store.generalize, Ty.substVars, Ty.mem_generics_subst] at mem
    obtain ⟨other, there, mem⟩ | ⟨other, there, -⟩ := mem
    · split at mem
      · next deep =>
        obtain rfl : n = other := by simpa using mem
        exact ⟨there, by simpa using deep⟩
      · simp at mem
    · rw [mono.plain] at there
      cases there
  refine .get (.set (.pure ⟨steps, Store.scheme_generalize mono level, ?_⟩))
  refine ⟨steps.reached, ?_, fun n mem here => ?_, fun n mem entry there here => ?_,
    fun n mem _ _ found here => ?_, fun n mem => ?_⟩
  · simp only [Ty.thaw, Ty.substGenerics, Ty.substVars, Ty.subst_subst]
    conv => rhs; rw [← Ty.subst_self (state.store.expand type)]
    apply Ty.subst_congr
    · intro n mem
      split <;> rfl
    · intro n mem
      rw [mono.plain] at mem
      cases mem
  · simp only [Ty.substVars, Ty.mem_vars_subst] at here
    obtain ⟨other, there, here⟩ | ⟨other, -, here⟩ := here
    · split at here
      · simp at here
      · next shallow =>
        obtain rfl : n = other := by simpa using here
        exact shallow (by simpa using (deeper mem).2)
    · simp at here
  · obtain ⟨other, there', here⟩ := Store.mem_vars_expand.mp here
    exact absurd ((fits.locals entry there other there').levels n here)
      (Nat.not_le_of_lt (deeper mem).2)
  · have at_top := (good _ (NameMap.mem_of_find? found)).levels n here
    have deep := (deeper mem).2
    omega
  · refine Store.isGeneralized_foldl_freeze (.inr ⟨?_, mono.covers.expand n (deeper mem).1⟩)
    exact mem_filter.mpr ⟨(deeper mem).1, by simpa using (deeper mem).2⟩

theorem externalType_spec (good : state.Good) (ctx : Context) (name : String) :
    Infers (externalType name) state fun type later =>
      state.Steps later ∧ later.store.Mono 0 type ∧ Declares later ctx (.external name) type := by
  refine .get ?_
  split
  · next external found =>
    exact .pure ⟨⟨.refl state, good⟩, good _ (NameMap.mem_of_find? found), external, found, rfl⟩
  · next missing =>
    have grows := state.store.grows_fresh 0
    have mono := state.store.mono_fresh 0
    refine ⟨⟨⟨grows, fun before => ?_, fun {other external} before => ?_⟩, fun entry mem => ?_⟩,
      mono, ⟨.var state.store.size, name⟩, ?_, rfl⟩
    · exact (state.store.isGeneralized_fresh 0 _).trans before
    · change (state.externals.insert name _).find? other = _
      rw [NameMap.find?_insert, if_neg, before]
      rintro rfl
      rw [missing] at before
      cases before
    · rcases mem_cons.mp mem with rfl | mem
      · exact mono
      · exact grows.mono (good entry (mem_filter.mp mem).1)
    · change (state.externals.insert name _).find? name = _
      rw [NameMap.find?_insert, if_pos rfl]

theorem generics_eq_nil (plain : ¬ (store.resolve type).isPolymorphic = true) : type.generics = [] := by
  rw [Ty.isPolymorphic, Bool.not_eq_true', Bool.not_eq_false, List.isEmpty_iff] at plain
  cases type with
  | var _ => rfl
  | _ => exact plain

theorem resolve_of_isPolymorphic (scheme : store.Scheme level type)
    (poly : (store.resolve type).isPolymorphic = true) : store.resolve type = type := by
  cases type with
  | var n =>
    have plain := (scheme n (by simp)).resolve.generics
    rw [Ty.isPolymorphic, plain] at poly
    cases poly
  | _ => rfl

theorem instantiate_spec (good : state.Good) (name : String) {scheme : Ty}
    (known : state.store.Scheme level scheme) :
    Infers (instantiate level name scheme) state fun made later =>
      state.Steps later ∧ later.store.Mono level made.type ∧ made.scheme = scheme ∧ made.Fits := by
  have made := state.store.instance_instantiate level scheme
  refine .get (.set (.pure ⟨?_, made.mono known, rfl, ?_⟩))
  · exact good.steps made.made.grows
      (fun n before => (made.made.isGeneralized n).trans before) _
  · have perm := sortBy_perm (fun first second : Nat × Ty => decide (first.1 ≤ second.1))
      (state.store.instantiate level scheme).2.2
    have distinct := (perm.map Prod.fst).nodup_iff.mpr made.distinct
    refine ⟨fun n => ?_, distinct, ?_⟩
    · have keys : (state.store.instantiate level scheme).2.2.map Prod.fst =
          scheme.generics.eraseDups := made.made.keys
      refine (perm.map Prod.fst).mem_iff.trans ?_
      rw [keys, mem_eraseDups]
    · refine made.type_eq.trans (Ty.subst_congr (fun _ _ => rfl) fun n mem => ?_)
      obtain ⟨_, found, -⟩ := made.lookup mem
      have sorted := lookup_of_mem distinct (perm.mem_iff.mpr (mem_of_lookup found))
      rw [found]
      exact congrArg (Option.getD · (.generic n)) sorted.symm

def signature (ctx : Context) (level : Nat) (params : List (Binder Symbol Annotation))
    (result : Option Annotation) : InferM (List (Binder Bound Annotation) × Ty) := do
  let params ← parameters ctx level params
  let returned ← fresh level
  checkHint ctx level result returned ((result.map Annotation.span).getD default)
  return (params, returned)

theorem expr_letRec (span : Span) (name : Symbol) (params : List (Binder Symbol Annotation))
    (result : Option Annotation) (body rest : Term) :
    Infer.expr ctx level (.letRec span name params result body rest) = (do
      let (params, returned) ← signature ctx (level + 1) params result
      let type := Bound.function params returned
      let body ← Infer.expr ((ctx.bindAll params).bind name type) (level + 1) body
      unify returned body.type body.span
      let scheme ← generalize level type
      let rest ← Infer.expr (ctx.bind name scheme) level rest
      return .letRec ⟨span, rest.type⟩ ⟨name, scheme⟩ params result body rest) := by
  rw [Infer.expr]
  cases result <;> simp [signature, checkHint, Bound.function]

end Infer

end MiddleEnd
