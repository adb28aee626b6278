import MiddleEnd.Proofs.Code.Normal
import MiddleEnd.Proofs.Code.Types

/-! Lowering follows the typing rules. The types of binders stay in the table as they are, and each
temporary gets the type of the expression that it stands for. -/

namespace MiddleEnd

open List

variable {type : Ty} {count result : Nat} {run : Run} {code : Code} {globals : Globals}
  {start middle stop state : Lowering} {table table' : TypeTable} {expr : TypedExpr}
  {assumptions : Assumptions} {scope : List Symbol} {label : Nat → String} {n : Nat} {note : Note}
  {name : String} {quantified : List Nat} {value : Value Block} {op : Op} {front : Code} {poly : Poly}
  {binders : List (Binder Bound Annotation)} {bound : Bound}

namespace TypeTable

def Agrees (count : Nat) (table table' : TypeTable) : Prop :=
  ∀ name, (∀ n, count ≤ n → name ≠ temporary n) →
    table'.find? name = table.find? name

namespace Agrees

variable {count' : Nat} {table'' : TypeTable}

theorem refl (count : Nat) (table : TypeTable) : Agrees count table table := fun _ _ => rfl

theorem trans (first : Agrees count table table') (second : Agrees count table' table'') :
    Agrees count table table'' := fun name early => (second name early).trans (first name early)

theorem mono (agrees : Agrees count' table table') (le : count ≤ count') : Agrees count table table' :=
  fun name early => agrees name fun n later => early n (Nat.le_trans le later)

theorem binder (agrees : Agrees count table table') (clean : isTemporary name = false) :
    table'.find? name = table.find? name := by
  refine agrees name fun _ _ same => ?_
  rw [same, isTemporary_temporary] at clean
  cases clean

theorem temporary (agrees : Agrees count table table') (early : n < count) :
    table'.find? (MiddleEnd.temporary n) = table.find? (MiddleEnd.temporary n) := by
  refine agrees _ fun _ _ same => ?_
  have := temporary_inj same
  omega

theorem insert_temporary (table : TypeTable) (type : Ty) (later : count ≤ n) :
    Agrees count table (table.insert (MiddleEnd.temporary n) type) := by
  intro _ early
  rw [NameMap.find?_insert, if_neg (early n later)]

theorem find?_inserted
    (later : Agrees (count + 1) (table.insert (MiddleEnd.temporary count) type) table') :
    table'.find? (MiddleEnd.temporary count) = some type := by
  rw [later.temporary (Nat.lt_succ_self count), NameMap.find?_insert, if_pos rfl]

theorem insert_same (count : Nat) (same : table.find? name = some type) :
    Agrees count table (table.insert name type) := by
  intro _ _
  rw [NameMap.find?_insert]
  split
  · next here => rw [here, same]
  · rfl

end Agrees

end TypeTable

namespace Lower

variable {externals : String → Option Ty}

structure Stretch (externals : String → Option Ty) (start stop : Lowering) (code : Code) : Prop where
  le : start.temporaries ≤ stop.temporaries
  agrees : start.table.Agrees start.temporaries stop.table
  types : ∀ table, stop.table.Agrees stop.temporaries table → Code.HasTypes externals table code

namespace Stretch

variable {code' : Code}

theorem nil (state : Lowering) : Stretch externals state state [] :=
  ⟨Nat.le_refl _, .refl _ _, fun _ _ => Code.hasTypes_nil⟩

theorem back (stretch : Stretch externals start stop code)
    (later : stop.table.Agrees stop.temporaries table) : start.table.Agrees start.temporaries table :=
  stretch.agrees.trans (later.mono stretch.le)

theorem append (first : Stretch externals start middle code)
    (second : Stretch externals middle stop code') : Stretch externals start stop (code ++ code') where
  le := Nat.le_trans first.le second.le
  agrees := first.agrees.trans (second.agrees.mono first.le)
  types table later :=
    Code.hasTypes_append.mpr ⟨first.types table (second.back later), second.types table later⟩

theorem keep (first : Stretch externals start middle code)
    (second : Stretch externals middle stop code') : Stretch externals start stop code where
  le := Nat.le_trans first.le second.le
  agrees := first.agrees.trans (second.agrees.mono first.le)
  types table later := first.types table (second.back later)

theorem single {id : Nat} {span : Span} (type : Ty) (le : start.temporaries ≤ stop.temporaries)
    (agrees : start.table.Agrees start.temporaries stop.table)
    (types : ∀ table, stop.table.Agrees stop.temporaries table →
      table.find? name = some type ∧ value.HasTypes externals table type) :
    Stretch externals start stop [⟨id, name, span, value⟩] :=
  ⟨le, agrees, fun table later => Code.hasTypes_cons.mpr ⟨⟨type, types table later⟩, Code.hasTypes_nil⟩⟩

theorem load (span : Span) (clean : isTemporary name = false)
    (declared : start.table.find? name = some type)
    (types : ∀ table, start.table.Agrees start.temporaries table → op.HasType externals table type) :
    Stretch externals start
      { start with table := start.table.insert name type, instructions := start.instructions + 1 }
      [⟨start.instructions, name, span, .op op⟩] := by
  have agrees := TypeTable.Agrees.insert_same start.temporaries declared
  refine .single type (Nat.le_refl _) agrees fun table later => ?_
  have back := agrees.trans later
  exact ⟨(back.binder clean).trans declared, types table back, forall_mem_nil _⟩

theorem fresh (span : Span)
    (types : ∀ table, start.table.Agrees start.temporaries table → op.HasType externals table type) :
    Stretch externals start
      (start.emitted type)
      [⟨start.instructions, MiddleEnd.temporary start.temporaries, span, .op op⟩] := by
  have agrees := TypeTable.Agrees.insert_temporary start.table type (Nat.le_refl start.temporaries)
  refine .single type (Nat.le_succ _) agrees fun table later => ⟨later.find?_inserted, ?_⟩
  exact ⟨types table (agrees.trans (later.mono (Nat.le_succ _))), forall_mem_nil _⟩

end Stretch

structure Computes (externals : String → Option Ty) (start : Lowering) (type : Ty) (run : Run)
    (stop : Lowering) (result : Nat) : Prop where
  le : start.temporaries ≤ result
  newest : stop.temporaries = result + 1
  named : run.name = MiddleEnd.temporary result
  agrees : start.table.Agrees start.temporaries stop.table
  found : stop.table.find? (MiddleEnd.temporary result) = some type
  types : ∀ table, stop.table.Agrees result table →
    Code.HasTypes externals table run.front ∧ run.last.value.HasTypes externals table type

namespace Computes

section

variable (computes : Computes externals start type run stop result)
include computes

theorem find? (later : stop.table.Agrees stop.temporaries table) : table.find? run.name = some type := by
  rw [computes.named, later.temporary (by rw [computes.newest]; omega), computes.found]

theorem reads (later : stop.table.Agrees stop.temporaries table) : table.Reads run.name type :=
  .of_find? (computes.find? later)

theorem stretch : Stretch externals start stop run.all where
  le := by
    rw [computes.newest]
    exact Nat.le_succ_of_le computes.le
  agrees := computes.agrees
  types table later := by
    obtain ⟨front, last⟩ := computes.types table
      (later.mono (by rw [computes.newest]; exact Nat.le_succ result))
    exact Code.hasTypes_append.mpr ⟨front, Code.hasTypes_cons.mpr ⟨⟨type, computes.find? later, last⟩,
      Code.hasTypes_nil⟩⟩

theorem returns (later : stop.table.Agrees stop.temporaries table) (front : Code) (label : String) :
    Block.Returns table (.mk label (front ++ run.all)) type :=
  ⟨front ++ run.front, run.last, (append_assoc ..).symm, computes.reads later⟩

end

theorem after (stretch : Stretch externals start middle code)
    (computes : Computes externals middle type run stop result) :
    Computes externals start type (run.after code) stop result where
  le := Nat.le_trans stretch.le computes.le
  newest := computes.newest
  named := computes.named
  agrees := stretch.agrees.trans (computes.agrees.mono stretch.le)
  found := computes.found
  types table later := by
    obtain ⟨front, last⟩ := computes.types table later
    refine ⟨Code.hasTypes_append.mpr ⟨stretch.types table ?_, front⟩, last⟩
    exact computes.agrees.trans (later.mono computes.le)

theorem bind (computes : Computes externals start type run stop result)
    (clean : isTemporary name = false) (declared : start.table.find? name = some type) :
    Stretch externals start { stop with table := (stop.table.erase run.name).insert name type }
      (Run.all { run with last := { run.last with name } }) where
  le := computes.stretch.le
  agrees := by
    intro other early
    rw [NameMap.find?_insert, NameMap.find?_erase, computes.named]
    split
    · next same => rw [same, declared]
    · rw [if_neg (early result computes.le), computes.agrees other early]
  types table later := by
    have kept : stop.table.find? name = some type := (computes.agrees.binder clean).trans declared
    -- Only the entry of the temporary is lost, and the run does not read it.
    have agrees : stop.table.Agrees result table := by
      intro other early
      rw [later other fun n here => early n (by rw [computes.newest] at here; omega),
        NameMap.find?_insert, NameMap.find?_erase, computes.named, if_neg (early result (Nat.le_refl _))]
      split
      · next same => rw [same, kept]
      · rfl
    obtain ⟨front, last⟩ := computes.types table agrees
    exact Code.hasTypes_append.mpr ⟨front, Code.hasTypes_cons.mpr
      ⟨⟨type, (agrees.binder clean).trans kept, last⟩, Code.hasTypes_nil⟩⟩

end Computes

abbrev Produces (externals : String → Option Ty) (computation : LowerM Run) (start state : Lowering)
    (type : Ty) : Prop :=
  Meets (fun _ => True) computation state fun run stop =>
    ∃ result, Computes externals start type run stop result

theorem emit_produces (stretch : Stretch externals start state front)
    (types : ∀ table, state.table.Agrees state.temporaries table →
      value.HasTypes externals table note.type) :
    Produces externals (emit front note value) start state note.type := by
  refine emit_spec ⟨state.temporaries, stretch.le, rfl, rfl, ?_, ?_, fun table later => ?_⟩
  · exact stretch.agrees.trans (.insert_temporary _ _ stretch.le)
  · exact (NameMap.find?_insert ..).trans (if_pos rfl)
  · have agrees := TypeTable.Agrees.trans (.insert_temporary _ note.type (Nat.le_refl _)) later
    exact ⟨stretch.types table agrees, types table agrees⟩

theorem emit_op_produces (stretch : Stretch externals start state front)
    (types : ∀ table, state.table.Agrees state.temporaries table →
      op.HasType externals table note.type) :
    Produces externals (emit front note (.op op)) start state note.type :=
  emit_produces stretch fun table later => ⟨types table later, forall_mem_nil _⟩

theorem lookup_cons_cases {binder : Nat × Poly}
    (found : List.lookup n (binder :: assumptions) = some poly) :
    assumptions.lookup n = some poly ∨ binder.1 = n ∧ binder.2 = poly := by
  rw [List.lookup_cons] at found
  split at found
  · next here => exact .inr ⟨(beq_iff_eq.mp here).symm, Option.some.inj found⟩
  · exact .inl found

theorem lookup_bindAll {binders : List (Symbol × Poly)}
    (found : (assumptions.bindAll binders).lookup n = some poly) :
    assumptions.lookup n = some poly ∨ ∃ binder ∈ binders, binder.1.number = n ∧ binder.2 = poly := by
  induction binders generalizing assumptions with
  | nil => exact .inl found
  | cons binder _ ih =>
    rcases ih found with found | ⟨other, mem, same⟩
    · exact (lookup_cons_cases found).imp_right fun same => ⟨binder, .head _, same⟩
    · exact .inr ⟨other, mem_cons_of_mem _ mem, same⟩

structure Declared (label : Nat → String) (count : Nat) (scope : List Symbol) (assumptions : Assumptions)
    (table : TypeTable) (expr : TypedExpr) : Prop where
  labelled : Labelled label count scope expr
  around : ∀ n poly, assumptions.lookup n = some poly →
    isTemporary (label n) = false ∧ table.find? (label n) = some poly.type
  within : ∀ bound ∈ expr.names, table.find? bound.symbol.name = some bound.type

namespace Declared

variable {assumptions' : Assumptions} {piece : TypedExpr}

theorem clean (declared : Declared label count scope assumptions table expr) :
    ∀ bound ∈ expr.names, isTemporary bound.symbol.name = false := by
  intro _ mem
  have names : expr.erase.names.Perm (expr.names.map Bound.symbol) := Expr.names_map_perm _ _ _ _ expr
  exact Symbol.isTemporary_name
    (declared.labelled.fits.names _ (names.mem_iff.mpr (mem_map_of_mem mem)))

theorem mem_names (own : bound ∈ expr.binds) : bound ∈ expr.names :=
  expr.names_perm.mem_iff.mpr (mem_append_left _ own)

section

variable (declared : Declared label count scope assumptions table expr)
include declared

theorem later (agrees : table.Agrees n table') :
    Declared label count scope assumptions table' expr where
  labelled := declared.labelled
  around n poly found := by
    obtain ⟨clean, here⟩ := declared.around n poly found
    exact ⟨clean, (agrees.binder clean).trans here⟩
  within bound mem := (agrees.binder (declared.clean bound mem)).trans (declared.within bound mem)

theorem part {bounds : List Bound}
    (mem : (bounds, piece) ∈ expr.parts)
    (origin : ∀ n poly, assumptions'.lookup n = some poly →
      assumptions.lookup n = some poly ∨
        ∃ bound ∈ bounds, bound.symbol.number = n ∧ bound.type = poly.type) :
    Declared label count (bounds.map Bound.symbol ++ scope) assumptions' table piece where
  labelled := declared.labelled.part mem
  around n poly found := by
    rcases origin n poly found with around | ⟨bound, here, rfl, same⟩
    · exact declared.around n poly around
    · have own := Expr.mem_binds_of_part mem here
      rw [declared.labelled.binds bound own, ← same]
      exact ⟨declared.clean bound (mem_names own), declared.within bound (mem_names own)⟩
  within bound here := declared.within bound (expr.names_perm.mem_iff.mpr
    (mem_append_right _ (mem_flatMap.mpr ⟨_, mem, here⟩)))

theorem inner (mem : ([], piece) ∈ expr.parts) :
    Declared label count scope assumptions table piece :=
  declared.part mem fun _ _ => .inl

theorem body (mem : ([bound], piece) ∈ expr.parts) :
    Declared label count (bound.symbol :: scope)
      ((bound.symbol.number, ⟨bound.type, quantified⟩) :: assumptions) table piece := by
  refine declared.part mem fun n _ found => ?_
  refine (lookup_cons_cases found).imp_right fun ⟨numbered, same⟩ => ?_
  exact ⟨bound, mem_singleton_self bound, numbered, same ▸ rfl⟩

end

end Declared

section

def Keeps (globals : Globals) (label : Nat → String) (count : Nat) (assumptions : Assumptions)
    (expr : TypedExpr) : Prop :=
  ∀ scope state, Declared label count scope assumptions state.table expr →
    Produces globals.externals (Lower.expr expr) state state expr.type

theorem exprs_keep {exprs : List TypedExpr}
    (each : ∀ expr ∈ exprs, Keeps globals label count assumptions expr)
    (declared : ∀ expr ∈ exprs, Declared label count scope assumptions state.table expr) :
    Meets (fun _ => True) (Lower.exprs exprs) state fun (front, names) stop =>
      Stretch globals.externals state stop front ∧ ∀ table, stop.table.Agrees stop.temporaries table →
        Forall₂ table.Reads names (exprs.map Expr.type) := by
  induction exprs generalizing state with
  | nil => exact .pure ⟨.nil state, fun _ _ => .nil⟩
  | cons expr exprs ih =>
    rw [forall_mem_cons] at each declared
    rw [Lower.exprs]
    refine .bind (each.1 scope state declared.1) ?_
    rintro _ _ ⟨_, computes⟩
    refine .bind (ih each.2 fun expr mem => (declared.2 expr mem).later computes.agrees) ?_
    rintro ⟨front, names⟩ stop ⟨stretch, reads⟩
    exact .pure ⟨computes.stretch.append stretch, fun table later =>
      .cons (computes.reads (stretch.back later)) (reads table later)⟩

theorem rename_keeps_types (computes : Computes globals.externals start type run stop result)
    (clean : isTemporary name = false) (declared : start.table.find? name = some type) :
    Meets (fun _ => True) (rename run name) stop fun renamed later =>
      Stretch globals.externals start later renamed.all := by
  refine .get ?_
  dsimp only
  rw [computes.named, computes.found, ← computes.named]
  exact .set (.pure (computes.bind clean declared))

theorem letIn_keeps {binder : Binder Bound Annotation} {bound body : TypedExpr}
    (same : binder.name.type = bound.type)
    (type_eq : Expr.type (.letIn note binder bound body) = body.type)
    (bound_ih : Keeps globals label count assumptions bound) (body_ih : Keeps globals label count
      ((binder.name.symbol.number, ⟨binder.name.type, quantified⟩) :: assumptions) body) :
    Keeps globals label count assumptions (.letIn note binder bound body) := by
  intro scope state declared
  have own : binder.name ∈ (Expr.letIn note binder bound body).names :=
    Declared.mem_names (by simp [Expr.binds])
  rw [Lower.expr, type_eq]
  refine .bind (bound_ih scope state (declared.inner (.head _))) ?_
  rintro _ _ ⟨result, computes⟩
  refine .bind (rename_keeps_types computes (declared.clean _ own) (same ▸ declared.within _ own)) ?_
  intro _ second stretch
  refine .bind (body_ih _ second ((declared.body (by simp [Expr.parts])).later stretch.agrees)) ?_
  rintro _ _ ⟨result, computes⟩
  exact .pure ⟨result, .after stretch computes⟩

theorem letRec_keeps {name : Bound} {params : List (Binder Bound Annotation)}
    {result : Option Annotation} {body rest : TypedExpr}
    (same : name.type = Bound.function params body.type)
    (type_eq : Expr.type (.letRec note name params result body rest) = rest.type)
    (body_ih : Keeps globals label count ((name.symbol.number, name.poly) ::
      assumptions.bindAll (params.map fun param => (param.name.symbol, param.name.poly))) body)
    (rest_ih : Keeps globals label count
      ((name.symbol.number, ⟨name.type, quantified⟩) :: assumptions) rest) :
    Keeps globals label count assumptions (.letRec note name params result body rest) := by
  intro scope state declared
  have own : ∀ bound ∈ name :: params.map Binder.name,
      bound ∈ (Expr.letRec note name params result body rest).names := fun bound mem =>
    Declared.mem_names mem
  have inside : Declared label count ((params.map Binder.name ++ [name]).map Bound.symbol ++ scope)
      ((name.symbol.number, name.poly) ::
        assumptions.bindAll (params.map fun param => (param.name.symbol, param.name.poly)))
      state.table body := by
    refine declared.part (by simp [Expr.parts]) fun n poly found => ?_
    rcases lookup_cons_cases found with found | ⟨numbered, rfl⟩
    · refine (lookup_bindAll found).imp_right ?_
      rintro ⟨_, mem, numbered, same⟩
      obtain ⟨param, there, rfl⟩ := mem_map.mp mem
      exact ⟨param.name, by simp [mem_map_of_mem there], numbered, same ▸ rfl⟩
    · exact .inr ⟨name, by simp, numbered, rfl⟩
  rw [Lower.expr, type_eq]
  refine .bind (body_ih _ state inside) ?_
  rintro run first ⟨result, computes⟩
  refine instruction_then ?_
  have stretch : Stretch globals.externals state { first with instructions := first.instructions + 1 }
      [⟨first.instructions, name.symbol.name, name.symbol.span,
        .function (params.map fun param => param.name.symbol.name)
          (.mk ("body (" ++ name.symbol.name ++ ")") run.all) false⟩] := by
    refine .single name.type computes.stretch.le computes.agrees fun table later => ?_
    have typed (bound : Bound) (mem : bound ∈ name :: params.map Binder.name) :
        table.find? bound.symbol.name = some bound.type :=
      (declared.later (computes.stretch.back later)).within bound (own bound mem)
    refine ⟨typed name (.head _), ?_, ?_⟩
    · refine ⟨params.map fun param : Binder Bound Annotation => param.name.type, body.type, same, ?_,
        computes.returns later [] _⟩
      refine forall₂_map_left_iff.mpr (forall₂_map_right_iff.mpr (forall₂_same.mpr ?_))
      exact fun param mem => typed param.name (.tail _ (mem_map_of_mem mem))
    · exact forall_mem_singleton.mpr (computes.stretch.types table later)
  refine .bind (rest_ih _ _ ((declared.body (by simp [Expr.parts])).later stretch.agrees)) ?_
  rintro run _ ⟨result, computes⟩
  exact .pure ⟨result, .after stretch computes⟩

theorem fields_keep (externals : String → Option Ty) {source : String} {index : Nat} {all : List Ty}
    (drop : all.drop index = binders.map fun binder => binder.name.type)
    (clean : ∀ binder ∈ binders, isTemporary binder.name.symbol.name = false)
    (declared : ∀ binder ∈ binders, state.table.find? binder.name.symbol.name = some binder.name.type)
    (reads : ∀ table, state.table.Agrees state.temporaries table → table.Reads source (.tuple all)) :
    Meets (fun _ => True) (fields source index binders (binders.map fun binder => binder.name.type)) state
      fun loads stop => Stretch externals state stop loads := by
  induction binders generalizing index state with
  | nil => exact .pure (.nil state)
  | cons binder _ ih =>
    rw [forall_mem_cons] at clean declared
    rw [map_cons, fields]
    refine setType_then (instruction_then ?_)
    have here : all[index]? = some binder.name.type := by
      rw [← Nat.add_zero index, ← getElem?_drop, drop]
      rfl
    have stretch : Stretch externals state _ _ :=
      .load binder.name.symbol.span clean.1 declared.1 fun table later => .field (reads table later) here
    refine .map (ih ?_ clean.2 ?_ ?_) fun loads stop rest => stretch.append rest
    · rw [← drop_drop, drop]
      rfl
    · intro other mem
      exact (stretch.agrees.binder (clean.2 other mem)).trans (declared.2 other mem)
    · exact fun table later => reads table (stretch.back later)

theorem letTuple_keeps {bound body : TypedExpr} {quantified : List (List Nat)}
    (same : bound.type = .tuple (binders.map fun binder => binder.name.type))
    (type_eq : Expr.type (.letTuple note binders bound body) = body.type)
    (bound_ih : Keeps globals label count assumptions bound)
    (body_ih : Keeps globals label count (assumptions.bindAll
      ((binders.zip quantified).map fun pair => (pair.1.name.symbol, ⟨pair.1.name.type, pair.2⟩))) body) :
    Keeps globals label count assumptions (.letTuple note binders bound body) := by
  intro scope state declared
  have own : ∀ binder ∈ binders, binder.name ∈ (Expr.letTuple note binders bound body).names :=
    fun binder mem => Declared.mem_names (mem_map_of_mem mem)
  have inside : Declared label count ((binders.map Binder.name).map Bound.symbol ++ scope)
      (assumptions.bindAll
        ((binders.zip quantified).map fun pair => (pair.1.name.symbol, ⟨pair.1.name.type, pair.2⟩)))
      state.table body := by
    refine declared.part (by simp [Expr.parts]) fun _ _ found => ?_
    refine (lookup_bindAll found).imp_right ?_
    rintro ⟨binder, mem, numbered, same⟩
    obtain ⟨pair, there, rfl⟩ := mem_map.mp mem
    exact ⟨pair.1.name, mem_map_of_mem (of_mem_zip there).1, numbered, same ▸ rfl⟩
  rw [Lower.expr, type_eq]
  refine .bind (bound_ih scope state (declared.inner (.head _))) ?_
  rintro _ _ ⟨result, computes⟩
  rw [same]
  refine .bind (fields_keep globals.externals (drop_zero ..)
    (fun binder mem => declared.clean _ (own binder mem))
    (fun binder mem => (declared.later computes.agrees).within _ (own binder mem))
    fun table later => same ▸ computes.reads later) fun _ second loads_stretch => ?_
  have stretch := computes.stretch.append loads_stretch
  refine .bind (body_ih _ second (inside.later stretch.agrees)) ?_
  rintro _ _ ⟨result, computes⟩
  exact .pure ⟨result, .after stretch computes⟩

theorem matchOption_keeps {target someArm noneArm : TypedExpr} {binder : Binder Bound Annotation}
    (target_same : target.type = .option binder.name.type) (some_same : someArm.type = note.type)
    (none_same : noneArm.type = note.type) (target_ih : Keeps globals label count assumptions target)
    (some_ih : Keeps globals label count
      ((binder.name.symbol.number, binder.name.poly) :: assumptions) someArm)
    (none_ih : Keeps globals label count assumptions noneArm) :
    Keeps globals label count assumptions (.matchOption note target binder someArm noneArm) := by
  intro scope state declared
  have own : binder.name ∈ (Expr.matchOption note target binder someArm noneArm).names :=
    Declared.mem_names (by simp [Expr.binds])
  rw [Lower.expr]
  refine .bind (target_ih scope state (declared.inner (.head _))) ?_
  rintro _ first ⟨_, computes⟩
  rw [target_same]
  refine temporary_then (setType_then (instruction_then ?_))
  have check : Stretch globals.externals first _ _ :=
    .fresh target.span fun table later => .isSome (target_same ▸ computes.reads later)
  have before := computes.stretch.append check
  -- The content is loaded after the arm is lowered, but stands in front of it.
  refine .bind (some_ih _ _ ((declared.body (by simp [Expr.parts])).later before.agrees)) ?_
  rintro _ second ⟨_, some_computes⟩
  refine setType_then (instruction_then ?_)
  have arm := before.append some_computes.stretch
  have content : Stretch globals.externals second _ _ :=
    .load binder.name.symbol.span (declared.clean _ own) ((declared.later arm.agrees).within _ own)
      fun table later =>
        .unwrap (target_same ▸ computes.reads (check.back (some_computes.stretch.back later)))
  have none_declared : Declared label count scope assumptions state.table noneArm :=
    declared.inner (.tail _ (.tail _ (.head _)))
  refine .bind (none_ih _ _ (none_declared.later (arm.append content).agrees)) ?_
  rintro _ _ ⟨_, none_computes⟩
  have arms := some_computes.stretch.append (content.append none_computes.stretch)
  refine emit_produces (before.keep arms) fun table later => ?_
  have some_later := content.back (none_computes.stretch.back later)
  refine ⟨⟨.of_find? (arms.back later).find?_inserted, ?_, ?_⟩, ?_⟩
  · exact some_same ▸ some_computes.returns some_later [_] "then"
  · exact none_same ▸ none_computes.returns later [] "else"
  · refine forall_mem_cons.mpr ⟨?_, forall_mem_singleton.mpr ?_⟩
    · exact Code.hasTypes_append.mpr ⟨content.types table (none_computes.stretch.back later),
        some_computes.stretch.types table some_later⟩
    · exact none_computes.stretch.types table later

theorem cond_keeps {test yes no : TypedExpr} (test_same : test.type = .bool)
    (yes_same : yes.type = note.type) (no_same : no.type = note.type)
    (test_ih : Keeps globals label count assumptions test)
    (yes_ih : Keeps globals label count assumptions yes)
    (no_ih : Keeps globals label count assumptions no) :
    Keeps globals label count assumptions (.cond note test yes no) := by
  intro scope state declared
  have inner {part : TypedExpr} (mem : part ∈ [test, yes, no]) :
      Declared label count scope assumptions state.table part :=
    declared.inner (by simpa [Expr.parts] using mem)
  rw [Lower.expr]
  refine .bind (test_ih scope state (inner (by simp))) ?_
  rintro _ first ⟨_, test_computes⟩
  have before := test_computes.stretch
  refine .bind (yes_ih scope first ((inner (by simp)).later before.agrees)) ?_
  rintro _ second ⟨_, computes⟩
  have between := before.append computes.stretch
  refine .bind (no_ih scope second ((inner (by simp)).later between.agrees)) ?_
  rintro _ _ ⟨_, computes'⟩
  have arms := computes.stretch.append computes'.stretch
  refine emit_produces (before.keep arms) fun table later => ?_
  have yes_later := computes'.stretch.back later
  refine ⟨⟨test_same ▸ test_computes.reads (arms.back later), ?_, ?_⟩, ?_⟩
  · exact yes_same ▸ computes.returns yes_later [] "then"
  · exact no_same ▸ computes'.returns later [] "else"
  · exact forall_mem_cons.mpr ⟨computes.stretch.types table yes_later,
      forall_mem_singleton.mpr (computes'.stretch.types table later)⟩

theorem var_keeps {use : Use} (refers : Refers globals assumptions use note.type) :
    Keeps globals label count assumptions (.var note use) := by
  intro _ state declared
  -- A use of a binder is an instance of the type of the binder.
  have local_use {symbol : Symbol} {poly : Poly} (target : use.target = .bound symbol)
      (known : assumptions.lookup symbol.number = some poly) (fits : poly.type.HasInstance note.type) :
      Produces globals.externals (Lower.expr (.var note use)) state state note.type := by
    obtain ⟨clean, found⟩ := declared.around symbol.number poly known
    have named := declared.labelled.around symbol (declared.labelled.fits.bound rfl target)
    rw [named] at clean found
    rw [Lower.expr, target]
    refine emit_op_produces (.nil state) fun table later => .ref ⟨poly.type, ?_, fits⟩
    exact (later.binder clean).trans found
  cases refers with
  | external target known _ =>
    rw [Lower.expr, target]
    exact emit_op_produces (.nil state) fun table later => .external known (.refl _)
  | whole target known _ same _ => exact local_use target known (same ▸ .refl _)
  | copy target known _ _ _ _ _ same => exact local_use target known ⟨_, same⟩

theorem forall_reads_of_same {names : List String} {types : List Ty}
    (reads : Forall₂ table.Reads names types) (same : ∀ other ∈ types, other = type) :
    ∀ name ∈ names, table.Reads name type := by
  induction reads with
  | nil => exact forall_mem_nil _
  | cons first _ ih =>
    rw [forall_mem_cons] at same ⊢
    exact ⟨same.1 ▸ first, ih same.2⟩

theorem Operates.keeps {whole : TypedExpr} {parts : List TypedExpr} {make : List String → Op}
    (operates : Operates whole parts make) (type_eq : whole.type = type)
    (ih : ∀ part ∈ parts, Keeps globals label count assumptions part)
    (types : ∀ (table : TypeTable) names, Forall₂ table.Reads names (parts.map Expr.type) →
      (make names).HasType globals.externals table type) :
    Keeps globals label count assumptions whole := by
  intro _ _ declared
  subst type_eq
  rw [operates.expr_eq]
  refine .bind (exprs_keep ih fun part mem => declared.inner (by simp [operates.parts_eq, mem])) ?_
  rintro ⟨_, names⟩ _ ⟨stretch, reads⟩
  exact emit_op_produces stretch fun table later => types table names (reads table later)

theorem apply_keeps {callee : TypedExpr} {args : List TypedExpr}
    (same : callee.type = .function (args.map Expr.type) note.type)
    (callee_ih : Keeps globals label count assumptions callee)
    (args_ih : ∀ arg ∈ args, Keeps globals label count assumptions arg) :
    Keeps globals label count assumptions (.apply note callee args) := by
  intro scope state declared
  rw [Lower.expr]
  refine .bind (callee_ih scope state (declared.inner (.head _))) ?_
  rintro _ middle ⟨_, computes⟩
  have args_declared : ∀ arg ∈ args, Declared label count scope assumptions middle.table arg :=
    fun arg mem => (declared.inner (by simp [Expr.parts, mem])).later computes.agrees
  refine .bind (exprs_keep args_ih args_declared) ?_
  rintro ⟨_, _⟩ _ ⟨stretch, reads⟩
  exact emit_op_produces (computes.stretch.append stretch) fun table later =>
    .call (by simp) (same ▸ computes.reads (stretch.back later)) (reads table later)

theorem expr_keeps (typed : WellTyped globals assumptions expr) :
    Keeps globals label count assumptions expr := by
  induction typed with
  | lit type_eq => exact Operates.keeps (.lit _ _) type_eq nofun fun _ _ _ => .const _
  | var refers => exact var_keeps refers
  | unary _ same type_eq ih =>
    refine Operates.keeps (.unary _ _ _) type_eq (by simpa using ih) fun table _ reads => ?_
    match reads with
    | .cons reads .nil => exact .unary (same ▸ reads)
  | binary _ _ known lhs_same rhs_same lhs_ih rhs_ih =>
    refine Operates.keeps (.binary _ _ _ _) rfl (by simpa using ⟨lhs_ih, rhs_ih⟩) fun table _ reads => ?_
    match reads with
    | .cons reads (.cons reads' .nil) => exact .binary known (lhs_same ▸ reads :) (rhs_same ▸ reads' :)
  | compare _ _ unknown same compares type_eq lhs_ih rhs_ih =>
    refine Operates.keeps (.binary _ _ _ _) type_eq (by simpa using ⟨lhs_ih, rhs_ih⟩) fun table _ reads => ?_
    match reads with
    | .cons reads (.cons reads' .nil) => exact .compare unknown reads (same ▸ reads') compares
  | cond _ _ _ test_same yes_same no_same test_ih yes_ih no_ih =>
    exact cond_keeps test_same yes_same no_same test_ih yes_ih no_ih
  | letIn _ same _ _ _ type_eq bound_ih body_ih => exact letIn_keeps same type_eq bound_ih body_ih
  | letRec _ _ _ same _ _ type_eq body_ih rest_ih => exact letRec_keeps same type_eq body_ih rest_ih
  | letTuple _ same _ _ _ _ type_eq bound_ih body_ih => exact letTuple_keeps same type_eq bound_ih body_ih
  | apply _ _ same callee_ih args_ih => exact apply_keeps same callee_ih args_ih
  | tuple _ type_eq ih => exact Operates.keeps (.tuple _ _) type_eq ih fun _ _ reads => .tuple reads
  | arrayMake _ size_same _ type_eq size_ih element_ih =>
    refine Operates.keeps (.arrayMake _ _ _) type_eq (by simpa using ⟨size_ih, element_ih⟩) fun table _ reads => ?_
    match reads with
    | .cons reads (.cons reads' .nil) => exact .arrayMake (size_same ▸ reads) reads'
  | arrayLit _ same type_eq ih =>
    refine Operates.keeps (.arrayLit _ _) type_eq ih fun table _ reads => ?_
    refine .arrayLit (forall_reads_of_same reads fun type mem => ?_)
    obtain ⟨element, there, rfl⟩ := mem_map.mp mem
    exact same element there
  | arrayLen _ same type_eq ih =>
    refine Operates.keeps (.arrayLen _ _) type_eq (by simpa using ih) fun table _ reads => ?_
    match reads with
    | .cons reads .nil => exact .arrayLen (same ▸ reads)
  | arrayGet _ array_same _ index_same array_ih index_ih =>
    refine Operates.keeps (.arrayGet _ _ _) rfl (by simpa using ⟨array_ih, index_ih⟩) fun table _ reads => ?_
    match reads with
    | .cons reads (.cons reads' .nil) => exact .arrayGet (array_same ▸ reads :) (index_same ▸ reads')
  | arraySet _ array_same _ index_same _ type_eq array_ih index_ih value_ih =>
    refine Operates.keeps (.arraySet _ _ _ _) type_eq (by simpa using ⟨array_ih, index_ih, value_ih⟩)
      fun table _ reads => ?_
    match reads with
    | .cons reads (.cons reads' (.cons reads'' .nil)) =>
      exact .arraySet (array_same ▸ reads) (index_same ▸ reads') reads''
  | some _ type_eq ih =>
    refine Operates.keeps (.some _ _) type_eq (by simpa using ih) fun table _ reads => ?_
    match reads with
    | .cons reads .nil => exact .some reads
  | none type_eq => exact Operates.keeps (.none _) type_eq nofun fun _ _ _ => .none _
  | matchOption _ target_same _ _ _ some_same none_same target_ih some_ih none_ih =>
    exact matchOption_keeps target_same some_same none_same target_ih some_ih none_ih
  | @typed _ note child hint _ _ type_eq ih =>
    intro scope state declared
    have type_eq : Expr.type (.typed note child hint) = child.type := type_eq
    rw [Lower.expr, type_eq]
    exact ih scope state (declared.inner (.head _))

end

end Lower

theorem Typed.lower_hasTypes {program : Typed} (typed : WellTyped globals [] program.body)
    (declared : Lower.Declared label count [] [] program.table program.body) {module : Module}
    (lowered : program.lower = .ok module) :
    Code.HasTypes globals.externals module.table module.entry.body ∧
      module.entry.Returns module.table program.body.type ∧
      program.table.Agrees 0 module.table := by
  have types : Yields (fun _ => True) program.lower fun module =>
      Code.HasTypes globals.externals module.table module.entry.body ∧
        module.entry.Returns module.table program.body.type ∧ program.table.Agrees 0 module.table :=
    .bind (Lower.expr_keeps typed [] { table := program.table } declared)
      fun (run, state) ⟨_, computes⟩ => .pure ⟨computes.stretch.types _ (.refl _ _),
        computes.returns (.refl _ _) [] "program", computes.agrees⟩
  exact types.of_eq lowered

end MiddleEnd
