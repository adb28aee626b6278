import MiddleEnd.Proofs.Typing.Derivation
import MiddleEnd.Proofs.Typing.Frozen

/-! The placeholders in the final types of a program: they stand only inside the bindings that made them,
except where a part of a tuple pattern was generalized before the annotation of another part was checked. -/

namespace MiddleEnd

open List

variable {typed : Typed} {store : Store} {program : Resolved} {settings : Settings} {state : Inference}
  {inferred : TypedExpr}

/-- Whether a variable was frozen by a part of a tuple pattern while the annotation of another part was
still to be checked. -/
def Resolved.FrozenEarly (program : Resolved) (settings : Settings) (n : Nat) : Prop :=
  ∃ moment ∈ program.record settings, moment.pending = true ∧ n ∈ moment.frozen

structure Resolved.Confines (program : Resolved) (settings : Settings) (typed : TypedExpr) (state : Inference) :
    Prop where
  plain : state.Plain
  clean : Clean (program.FrozenEarly settings) [] state
  deep : ∀ n, state.store.isGeneralized n = true →
    program.FrozenEarly settings n ∨ 0 < state.store.level n
  kept : ∀ site ∈ typed.sites, site.Kept (program.FrozenEarly settings) (fun _ => False) 0 state

theorem Resolved.confines {typed : TypedExpr}
    (run : (Infer.program program).run (.start settings) = .ok (typed, state)) :
    program.Confines settings typed state := by
  have run : (Record.program program (.start settings)).2 = .ok (typed, state) :=
    (congrFun (Record.plain_program program) (.start settings)).trans run
  obtain ⟨types, middle, prelude_run, run⟩ := RecordM.exists_of_bind run
  have moments : program.record settings = (Record.expr { aliases := types } 0 program.body middle).1 :=
    RecordM.moments_bind prelude_run
  have prelude := Record.guards_prelude (Record.ready_start settings) program
  have held := Record.held_prelude prelude_run
  have retains : Retains (program.FrozenEarly settings) 0 _ [] middle _ _ _ _ := Record.keeps_expr program.body held
  have unmarked (n : Nat) : ¬middle.store.isGeneralized n = true := fun marked => by
    rcases prelude.marked prelude_run marked with before | ⟨_, impossible, _⟩
    · exact absurd (Store.isGeneralized_lt before) (Nat.not_lt_zero n)
    · cases impossible
  have leaks : Leaks (program.FrozenEarly settings) (Record.expr { aliases := types } 0 program.body middle).1 :=
    fun moment mem pending n frozen => ⟨moment, moments ▸ mem, pending, frozen⟩
  have clean : Clean (program.FrozenEarly settings) (types.flatMap Ty.vars ++ []) middle :=
    fun n marked => absurd marked (unmarked n)
  have body_advances := retains.guards.advances run
  have clean_end := clean.after retains.guards run leaks ((held.ready.after body_advances).and body_advances.vars)
  refine ⟨(retains.calm.leads run).plain held.plain, fun n marked => ?_, fun n marked => ?_,
    retains.kept run leaks ⟨clean, fun _ => False.elim, forall_mem_nil _⟩⟩
  · exact (clean_end n marked).imp_right fun hidden => hidden.subset (forall_mem_nil _)
  · obtain ⟨moment, mem, frozen⟩ := (retains.guards.marked run marked).resolve_left (unmarked n)
    cases settled : moment.pending with
    | true => exact .inl (leaks moment mem settled n frozen)
    | false => exact .inr (retains.guards.sealed run moment mem settled n frozen).deep

/-! ### Final types -/

namespace Store

variable {later : Store} {type : Ty} {n : Nat}

@[simp] theorem vars_closed (store : Store) (type : Ty) : (store.closed type).vars = [] := by
  rw [eq_nil_iff_forall_not_mem]
  intro _ mem
  rw [closed, Ty.substVars, Ty.mem_vars_subst] at mem
  obtain ⟨_, _, mem⟩ | ⟨_, _, mem⟩ := mem <;> cases mem

theorem Defaulted.mem_vars (defaulted : store.Defaulted later) (mem : n ∈ (later.expand type).vars) :
    n ∈ (store.expand type).vars := by
  obtain ⟨_, there, mem⟩ := defaulted.keeps.mem_vars_expand.mp mem
  rcases defaulted.expand_eq (link?_of_mem_expand there) with same | same
  · rw [same] at mem
    exact mem_singleton.mp mem ▸ there
  · rw [same] at mem
    cases mem

theorem Defaulted.mem_generics_closed (defaulted : store.Defaulted later) (plain : store.Plain)
    (without : type.generics = []) (closes : later.Closes type) (mem : n ∈ (later.closed type).generics) :
    n ∈ (store.expand type).vars ∧ store.isGeneralized n = true := by
  rw [Store.mem_generics_closed, defaulted.generics (plain.expand without), mem_nil_iff, or_false] at mem
  exact ⟨defaulted.mem_vars mem, (defaulted.isGeneralized n).symm.trans (closes n mem)⟩

end Store

theorem Close.closes_of_externals {entries final : List (String × External)}
    (run : Close.externals store program entries = .ok final) :
    ∀ entry ∈ entries, store.Closes entry.2.type := by
  induction entries generalizing final with
  | nil => exact forall_mem_nil _
  | cons _ _ ih =>
    obtain ⟨_, first_run, run⟩ := bind_eq_ok.mp run
    obtain ⟨_, rest_run, -⟩ := bind_eq_ok.mp run
    exact forall_mem_cons.mpr ⟨((Close.type_spec _ _ _).of_eq first_run).2, ih rest_run⟩

structure Resolved.Accepted (program : Resolved) (settings : Settings) (typed : Typed) (inferred : TypedExpr)
    (state : Inference) : Prop where
  run : (Infer.program program).run (.start settings) = .ok (inferred, state)
  derives : ∃ types, Derives state { aliases := types } inferred
  erased : inferred.erase = program.body
  body : typed.body = inferred.close (state.settle inferred)
  externals : typed.externals.entries = state.externals.entries.map fun (name, external) =>
    (name, { external with type := (state.settle inferred).closed external.type })
  closes : ∀ site ∈ inferred.sites, (state.settle inferred).Closes site.type
  externals_close : ∀ entry ∈ state.externals.entries, (state.settle inferred).Closes entry.2.type

theorem Resolved.exists_accepted {fine : String → Prop} (placed : program.WellScoped fine)
    (checks : program.check settings = .ok typed) :
    ∃ inferred state, program.Accepted settings typed inferred state := by
  obtain ⟨⟨inferred, state⟩, run, checks⟩ := bind_eq_ok.mp checks
  obtain ⟨typed, closes, checks⟩ := bind_eq_ok.mp checks
  obtain ⟨_, -, ended⟩ := bind_eq_ok.mp checks
  cases ended
  obtain ⟨⟨types, complete⟩, -⟩ := (Infer.program_spec placed (good_builtins settings.seedBuiltins)).of_run run
  obtain ⟨body_eq, externals_eq⟩ := (state.close_spec complete.derives program).of_eq closes
  obtain ⟨_, body_run, closes⟩ := bind_eq_ok.mp closes
  obtain ⟨_, externals_run, -⟩ := bind_eq_ok.mp closes
  exact ⟨inferred, state, run, ⟨types, complete.derives⟩, complete.erased, body_eq, externals_eq,
    Close.closes_of_expr body_run, Close.closes_of_externals externals_run⟩

/-- The placeholders that the binding of a symbol makes: those in its type scheme as inference has found it,
before the final types are known. -/
def Resolved.frozenBy (program : Resolved) (settings : Settings) (symbol : Symbol) : List Nat :=
  match (Infer.program program).run (.start settings) with
  | .ok (inferred, _) =>
    (inferred.names.filter fun bound => bound.symbol.number == symbol.number).flatMap fun bound => bound.type.generics
  | .error _ => []

namespace Resolved.Accepted

section

variable (accepted : program.Accepted settings typed inferred state)
include accepted

theorem frozenBy_eq (symbol : Symbol) :
    program.frozenBy settings symbol = (inferred.names.filter fun bound =>
      bound.symbol.number == symbol.number).flatMap fun bound => bound.type.generics := by
  rw [frozenBy, accepted.run]

theorem mem_frozenBy {bound : Bound}
    (mem : bound ∈ inferred.names) {n : Nat} (quantified : n ∈ bound.type.generics) :
    n ∈ program.frozenBy settings bound.symbol := by
  rw [accepted.frozenBy_eq]
  exact mem_flatMap.mpr ⟨bound, mem_filter.mpr ⟨mem, beq_self_eq_true _⟩, quantified⟩

theorem mem_around :
    ∀ site ∈ typed.body.sites, ∀ n ∈ site.type.generics, program.FrozenEarly settings n ∨
      ∃ bound ∈ site.around, n ∈ program.frozenBy settings bound.symbol := by
  intro _ mem n here
  have confines := Resolved.confines accepted.run
  have defaulted := state.defaulted_settle inferred
  rw [accepted.body] at mem
  obtain ⟨inner, there, rfl⟩ := Expr.exists_of_mem_sites_close mem
  have kept := confines.kept inner there
  obtain ⟨inside, marked⟩ := defaulted.mem_generics_closed confines.plain.store kept.plain
    (accepted.closes inner there) here
  rcases confines.deep n marked with early | deep
  · exact .inl early
  · refine (kept.frozen n inside deep marked).imp_right fun ⟨bound, around, quantified⟩ => ?_
    exact ⟨_, mem_map_of_mem around,
      accepted.mem_frozenBy (Expr.mem_names_of_around there around) quantified⟩

theorem external_generics :
    ∀ entry ∈ typed.externals.entries, ∀ n ∈ entry.2.type.generics, program.FrozenEarly settings n := by
  intro entry mem n here
  have confines := Resolved.confines accepted.run
  have defaulted := state.defaulted_settle inferred
  rw [accepted.externals] at mem
  obtain ⟨entry, there, rfl⟩ := mem_map.mp mem
  obtain ⟨inside, marked⟩ := defaulted.mem_generics_closed confines.plain.store (confines.plain.externals entry there)
    (accepted.externals_close entry there) here
  refine (confines.clean n marked).resolve_right fun hidden => ?_
  obtain ⟨other, above, inside⟩ := Store.mem_vars_expand.mp inside
  exact (hidden.outer other (mem_flatMap.mpr ⟨entry, there, above⟩)).2 n inside rfl

end

end Resolved.Accepted

/-! ### Scope of placeholders -/

theorem NameMap.mem_ofList {α : Type} {entries : List (String × α)} {entry : String × α}
    (mem : entry ∈ (NameMap.ofList entries).entries) : entry ∈ entries := by
  have folded (entries : List (String × α)) (map : NameMap α)
      (mem : entry ∈ (entries.foldl (fun map entry => map.insert entry.1 entry.2) map).entries) :
      entry ∈ map.entries ∨ entry ∈ entries := by
    induction entries generalizing map with
    | nil => exact .inl mem
    | cons _ _ ih =>
      rcases ih _ mem with before | there
      · rcases mem_cons.mp before with rfl | before
        · exact .inr (.head _)
        · exact .inl (mem_filter.mp before).1
      · exact .inr (.tail _ there)
  exact (folded entries .empty mem).resolve_left not_mem_nil

/-- Whether no variable of inference is left in the types of a program. -/
structure Typed.Ground (program : Typed) : Prop where
  places : ∀ site ∈ program.body.sites, site.type.vars = []
  table : ∀ entry ∈ program.table.entries, entry.2.vars = []
  externals : ∀ entry ∈ program.externals.entries, entry.2.type.vars = []
  records : ∀ made ∈ program.instantiations,
    made.scheme.vars = [] ∧ made.type.vars = [] ∧ ∀ entry ∈ made.mapping, entry.2.vars = []

theorem Resolved.Accepted.ground (accepted : program.Accepted settings typed inferred state) :
    typed.Ground where
  places site mem := by
    rw [accepted.body] at mem
    obtain ⟨inner, -, rfl⟩ := Expr.exists_of_mem_sites_close mem
    exact Store.vars_closed _ inner.type
  table entry mem := by
    obtain ⟨_, there, rfl⟩ := mem_map.mp (NameMap.mem_ofList mem)
    rw [accepted.body, Expr.close, (Expr.names_map_perm _ _ _ _ inferred).mem_iff] at there
    obtain ⟨open_, -, rfl⟩ := mem_map.mp there
    exact Store.vars_closed _ open_.type
  externals entry mem := by
    rw [accepted.externals] at mem
    obtain ⟨open_, -, rfl⟩ := mem_map.mp mem
    exact Store.vars_closed _ open_.2.type
  records made mem := by
    obtain ⟨_, there, taken⟩ := mem_filterMap.mp mem
    rw [(sortBy_perm _ _).mem_iff, accepted.body, Expr.close, Expr.refs_map] at there
    obtain ⟨open_, -, rfl⟩ := mem_map.mp there
    obtain ⟨made, -, rfl⟩ := Option.map_eq_some_iff.mp taken
    refine ⟨Store.vars_closed _ made.scheme, Store.vars_closed _ made.type, fun entry mem => ?_⟩
    obtain ⟨open_, -, rfl⟩ := mem_map.mp mem
    exact Store.vars_closed _ open_.2

/-- The final types of a program have no variables of inference. A placeholder in the type of an
expression or a parameter was made by a binding around it, and there is none in the type of the whole
program or of an external. Only variables that were frozen too early can be found elsewhere. -/
theorem Surface.placeholders_scoped {program : Surface} {resolved : Resolved} {typed : Typed} {settings : Settings}
    (resolves : program.resolve = .ok resolved) (checks : resolved.check settings = .ok typed) :
    typed.Ground ∧
      (∀ site ∈ typed.body.sites, ∀ n ∈ site.type.generics, resolved.FrozenEarly settings n ∨
        ∃ bound ∈ site.around, n ∈ resolved.frozenBy settings bound.symbol) ∧
      (∀ n ∈ typed.body.type.generics, resolved.FrozenEarly settings n) ∧
      ∀ entry ∈ typed.externals.entries, ∀ n ∈ entry.2.type.generics,
        resolved.FrozenEarly settings n := by
  obtain ⟨inferred, state, accepted⟩ := Resolved.exists_accepted (wellScoped_of_resolve resolves) checks
  refine ⟨accepted.ground, accepted.mem_around, fun n here => ?_, accepted.external_generics⟩
  have root : { typed.body.note.site with use := typed.body.ref? } ∈ typed.body.sites :=
    Expr.mem_sites.mpr (.inl List.mem_cons_self)
  exact (accepted.mem_around _ root n here).resolve_right fun ⟨_, around, _⟩ => nomatch around

/-- The inner binding and the function around it have made one placeholder each of those in the pair. -/
theorem Surface.placeholders_scoped_innerPair : ∃ resolved typed, innerPair.resolve = .ok resolved ∧
    resolved.check {} = .ok typed ∧
    (typed.body.sites.map fun site => (site.type.generics, site.around.map fun bound => bound.symbol.number))[3]? =
      some ([0, 2], [0, 2]) ∧
    (∀ n, ¬resolved.FrozenEarly {} n) ∧
    ∀ site ∈ typed.body.sites, ∀ n ∈ site.type.generics, resolved.FrozenEarly {} n ∨
      ∃ bound ∈ site.around, n ∈ resolved.frozenBy {} bound.symbol := by
  obtain ⟨resolved, typed, resolves, checks, test⟩ :=
    exists_of_accepted innerPair {} fun resolved typed =>
      decide ((typed.body.sites.map fun site =>
        (site.type.generics, site.around.map fun bound => bound.symbol.number))[3]? = some ([0, 2], [0, 2])) &&
      decide (∀ moment ∈ resolved.record {}, moment.pending = false)
  rw [Bool.and_eq_true, decide_eq_true_eq, decide_eq_true_eq] at test
  refine ⟨resolved, typed, resolves, checks, test.1, fun n early => ?_,
    (placeholders_scoped resolves checks).2.1⟩
  obtain ⟨moment, member, pending, -⟩ := early
  rw [test.2 moment member] at pending
  cases pending

/-- `type t = _ option; let rec pair x = (x, x) in let (a, (b : t)) = pair None in b` -/
def Surface.lateHole : Surface :=
  let name (text : String) : Ident := ⟨text, default, 0⟩
  let var (text : String) (order : Nat) : Expr Ident Mention TypeExpr Span :=
    .var default ⟨name text, order⟩
  { aliases := [⟨name "t", .applied default (name "option") [.hole default]⟩]
    body :=
      .letRec default (name "pair") [⟨name "x", none⟩] none (.tuple default [var "x" 0, var "x" 1])
        (.letTuple default [⟨name "a", none⟩, ⟨name "b", some (.named default (name "t"))⟩]
          (.apply default (var "pair" 2) [.none default]) (var "b" 3)) }

/-- The first part freezes the variable of both, and the annotation of the second part brings it into the
type of the alias, which is known everywhere: it is left in the type of the program. -/
theorem Surface.lateHole_placeholder_escapes : ∃ resolved typed, lateHole.resolve = .ok resolved ∧
    resolved.check {} = .ok typed ∧ typed.body.type = .option (.generic 4) := by
  obtain ⟨resolved, typed, resolves, checks, test⟩ :=
    exists_of_accepted lateHole {} fun _ typed => decide (typed.body.type = .option (.generic 4))
  exact ⟨resolved, typed, resolves, checks, of_decide_eq_true test⟩

end MiddleEnd
