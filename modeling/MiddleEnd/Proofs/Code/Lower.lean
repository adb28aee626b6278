import MiddleEnd.Proofs.Code.Tally
import MiddleEnd.Proofs.Typing.Close

/-! Lowering runs into no fault. The code it gives is in scope, defines every name once, and has a
type for every name. -/

namespace MiddleEnd

open List

variable {start middle stop : Lowering} {symbols symbols' : List Symbol} {scope names : List String}
  {code : Code} {unread : List Nat} {run : Run} {result count : Nat} {fails : Fault → Prop} {α : Type}
  {whole : TypedExpr} {parts : List TypedExpr} {make : List String → Op} {symbol : Symbol} {note : Note}
  {body : TypedExpr} {op : Op} {source : Nat} {front : Code} {name : String} {value : Value Block}
  {binders : List (Binder Bound Annotation)} {binder : Binder Bound Annotation} {bound : TypedExpr}

def Block.Ends (block : Block) : Prop :=
  ∃ front last, block.body = front ++ [last] ∧ isTemporary last.name = true ∧
    last.value.isFunction = false

def Value.Plain : Value Block → Prop
  | .op (.call kind _ _) => kind = .direct
  | .op (.ref name) => isTemporary name = false
  | .op (.closure _ _) => False
  | .op _ => True
  | .branch _ yes no => yes.Ends ∧ no.Ends
  | .function _ body _ => body.Ends

structure Piece (start stop : Lowering) (symbols : List Symbol) (scope : List String) (code : Code)
    (unread : List Nat) : Prop where
  fits : Code.InScope scope code
  plain : ∀ instr ∈ Code.instrs code, instr.value.Plain
  tally : Tally start stop symbols (Code.instrs code)
  reading : Reading start stop (Code.instrs code) unread
  defined : ∀ n ∈ unread, temporary n ∈ code.map Instr.name

theorem consistent_values (values : op.callees = []) : Consistent (Value.uses (.op op)) := by
  intro _ _ _ first second
  simp only [Value.uses, values, map_nil, nil_append, mem_map, Prod.mk.injEq] at first second
  obtain ⟨_, _, _, rfl⟩ := first
  obtain ⟨_, _, _, rfl⟩ := second
  rfl

namespace Piece

variable {code' : Code} {unread' : List Nat}

protected theorem nil (state : Lowering) (scope : List String) : Piece state state [] scope [] [] where
  fits := trivial
  plain := nofun
  tally := .nil state
  reading := .nil state
  defined := nofun

theorem append (front : Piece start middle symbols scope code unread)
    (back : Piece middle stop symbols' (code.map Instr.name ++ scope) code' unread') :
    Piece start stop (symbols ++ symbols') scope (code ++ code') (unread ++ unread') where
  fits := Code.inScope_append.mpr ⟨front.fits, back.fits⟩
  plain instr mem := by
    rw [Code.instrs_append, mem_append] at mem
    exact mem.elim (front.plain instr) (back.plain instr)
  tally := by
    rw [Code.instrs_append]
    exact front.tally.append back.tally
  reading := by
    rw [Code.instrs_append]
    exact front.reading.append back.reading
  defined n mem := by
    rw [map_append, mem_append]
    exact (mem_append.mp mem).imp (front.defined n) (back.defined n)

section

variable (piece : Piece start stop symbols scope code unread)
include piece

theorem perm (same : symbols.Perm symbols') : Piece start stop symbols' scope code unread :=
  { piece with tally := piece.tally.perm same (.refl _) }

theorem forget (nodup : unread'.Nodup)
    (subset : unread' ⊆ unread) : Piece start stop symbols scope code unread' :=
  { piece with
    reading := { piece.reading with
      unread_nodup := nodup
      unread_between := fun n mem => piece.reading.unread_between n (subset mem)
      unread := fun n mem => piece.reading.unread n (subset mem) }
    defined := fun n mem => piece.defined n (subset mem) }

theorem emit (note : Note)
    (plain : Value.Plain (.op op)) (consistent : Consistent (Value.uses (.op op)))
    (reads : ∀ operand ∈ op.operands, (∃ n ∈ unread, operand = temporary n) ∨
      operand ∈ scope ∧ isTemporary operand = false) :
    Piece start
      (stop.emitted note.type)
      symbols scope
      (code ++ [⟨stop.instructions, temporary stop.temporaries, note.span, .op op⟩])
      [stop.temporaries] := by
  have read {n : Nat} {role : Role} (use : (temporary n, role) ∈ Value.uses (.op op)) : n ∈ unread := by
    have operand : temporary n ∈ op.operands := by
      simp only [Value.uses, mem_append, mem_map, Prod.mk.injEq] at use
      rw [Op.mem_operands]
      rcases use with ⟨_, mem, rfl, _⟩ | ⟨_, mem, rfl, _⟩
      · exact .inl mem
      · exact .inr mem
    rcases reads _ operand with ⟨n', mem, same⟩ | ⟨_, clean⟩
    · rwa [temporary_inj same]
    · rw [isTemporary_temporary] at clean
      cases clean
  constructor
  · refine Code.inScope_append.mpr ⟨piece.fits, fun operand mem => ?_, trivial⟩
    rcases reads operand mem with ⟨n, there, rfl⟩ | ⟨visible, _⟩
    · exact mem_append_left _ (piece.defined n there)
    · exact mem_append_right _ visible
  · intro instr mem
    rw [Code.instrs_append, mem_append] at mem
    rcases mem with mem | mem
    · exact piece.plain instr mem
    · rw [mem_singleton.mp mem]
      exact plain
  · rw [Code.instrs_append, ← append_nil symbols]
    exact piece.tally.append (.emit stop note.span note.type rfl)
  · rw [Code.instrs_append]
    refine piece.reading.read (Nat.le_succ _) consistent (fun n role use => .inl (read use))
      (by simp) fun n mem => ?_
    rw [mem_singleton.mp mem]
    refine ⟨.inr ⟨Nat.le_refl _, Nat.lt_succ_self _⟩, fun role use => ?_⟩
    have := (piece.reading.unread_between _ (read use)).2
    omega
  · simp

theorem emit_values (note : Note)
    (plain : Value.Plain (.op op)) (values : op.callees = [])
    (reads : ∀ operand ∈ op.operands, operand ∈ unread.map temporary) :
    Piece start
      (stop.emitted note.type)
      symbols scope
      (code ++ [⟨stop.instructions, temporary stop.temporaries, note.span, .op op⟩])
      [stop.temporaries] := by
  refine piece.emit note plain (consistent_values values) fun operand mem => .inl ?_
  obtain ⟨n, there, rfl⟩ := mem_map.mp (reads operand mem)
  exact ⟨n, there, rfl⟩

theorem load {later : Lowering} (span : Span)
    (plain : Value.Plain (.op op)) (uses : Value.uses (.op op) = [(temporary source, .value)])
    (operands : op.operands = [temporary source])
    (known : source ∈ unread ∨ (temporary source, .value) ∈ usesOf (Code.instrs code))
    (defined : temporary source ∈ code.map Instr.name) (fine : isTemporary symbol.name = false)
    (same_temporaries : later.temporaries = stop.temporaries)
    (counted : later.instructions = stop.instructions + 1)
    (same_table : ∀ name, later.table.contains name = true ↔ stop.table.contains name = true) :
    Piece start later (symbols ++ [symbol]) scope
      (code ++ [⟨stop.instructions, symbol.name, span, .op op⟩]) [] := by
  have only {n : Nat} {role : Role} (use : (temporary n, role) ∈ Value.uses (.op op)) :
      n = source ∧ role = .value := by
    rw [uses, mem_singleton, Prod.mk.injEq] at use
    exact ⟨temporary_inj use.1, use.2⟩
  constructor
  · refine Code.inScope_append.mpr ⟨piece.fits, fun _ mem => ?_, trivial⟩
    rw [operands, mem_singleton] at mem
    exact mem_append_left _ (mem ▸ defined)
  · intro instr mem
    rw [Code.instrs_append, mem_append] at mem
    rcases mem with mem | mem
    · exact piece.plain instr mem
    · rw [mem_singleton.mp mem]
      exact plain
  · rw [Code.instrs_append]
    exact piece.tally.append (.named span rfl (by simpa using fine) same_temporaries counted same_table)
  · rw [Code.instrs_append]
    refine piece.reading.read (Nat.le_of_eq same_temporaries.symm) ?_ ?_ nodup_nil nofun
    · intro n role role' first second
      exact (only first).2.trans (only second).2.symm
    · intro n role use
      obtain ⟨rfl, rfl⟩ := only use
      exact known
  · exact nofun

end

theorem branch {flat : List (Instr Block)} {test yesResult noResult : Nat} {yes no : Code}
    {label label' : String} (note : Note) (fits : Code.InScope scope code)
    (yes_fits : Code.InScope (code.map Instr.name ++ scope) yes)
    (no_fits : Code.InScope (code.map Instr.name ++ scope) no)
    (defined : temporary test ∈ code.map Instr.name)
    (yes_ends : Block.Ends (.mk label yes)) (no_ends : Block.Ends (.mk label' no))
    (yes_result : Block.result? (.mk label yes) = some (temporary yesResult))
    (no_result : Block.result? (.mk label' no) = some (temporary noResult))
    (same : flat.Perm (Code.instrs code ++ (Code.instrs yes ++ Code.instrs no)))
    (plain : ∀ instr ∈ flat, instr.value.Plain) (tally : Tally start stop symbols flat)
    (reading : Reading start stop flat [test, yesResult, noResult]) :
    Piece start
      (stop.emitted note.type)
      symbols scope
      (code ++ [⟨stop.instructions, temporary stop.temporaries, note.span,
        .branch (temporary test) (.mk label yes) (.mk label' no)⟩])
      [stop.temporaries] := by
  let instr : Instr Block := ⟨stop.instructions, temporary stop.temporaries, note.span,
    .branch (temporary test) (.mk label yes) (.mk label' no)⟩
  have uses : instr.value.uses = [(temporary test, .value), (temporary yesResult, .result),
      (temporary noResult, .result)] := by
    simp [instr, Value.uses, yes_result, no_result]
  have flattened : (flat ++ [instr]).Perm (Code.instrs (code ++ [instr])) := by
    refine (same.append_right _).trans ?_
    rw [Code.instrs_append, Code.instrs_cons, append_assoc]
    refine .append_left _ ?_
    have swap : (Code.instrs yes ++ Code.instrs no ++ [instr]).Perm
        (instr :: (Code.instrs yes ++ Code.instrs no)) := perm_append_comm
    simpa [instr, Value.blocks, Code.blockInstrs, Code.instrs] using swap
  have distinct := reading.unread_nodup
  have read {n : Nat} {role : Role} (use : (temporary n, role) ∈ instr.value.uses) :
      n ∈ [test, yesResult, noResult] := by
    simp only [uses, mem_cons, Prod.mk.injEq, not_mem_nil, or_false] at use ⊢
    exact use.imp (temporary_inj ·.1) (.imp (temporary_inj ·.1) (temporary_inj ·.1))
  constructor
  · exact Code.inScope_append.mpr
      ⟨fits, mem_append_left _ defined, yes_fits, no_fits, trivial⟩
  · intro other mem
    rcases mem_append.mp (flattened.mem_iff.mpr mem) with mem | mem
    · exact plain other mem
    · rw [mem_singleton.mp mem]
      exact ⟨yes_ends, no_ends⟩
  · rw [← append_nil symbols]
    exact (tally.append (.emit stop note.span note.type rfl)).perm (.refl _) flattened
  · refine (reading.read (Nat.le_succ _) ?_ (fun n role use => .inl (read use)) (by simp) ?_).perm
      flattened
    · intro n role role' first second
      rw [uses] at first second
      simp only [nodup_cons, mem_cons, not_mem_nil, or_false, not_or] at distinct
      simp only [mem_cons, Prod.mk.injEq, not_mem_nil, or_false] at first second
      have apart := distinct.1
      rcases first with ⟨here, rfl⟩ | ⟨here, rfl⟩ | ⟨here, rfl⟩ <;>
        rcases second with ⟨there, rfl⟩ | ⟨there, rfl⟩ | ⟨there, rfl⟩ <;>
        first
        | rfl
        | exact absurd (temporary_inj (here.symm.trans there)) (by omega)
    · intro n mem
      rw [mem_singleton.mp mem]
      refine ⟨.inr ⟨Nat.le_refl _, Nat.lt_succ_self _⟩, fun role use => ?_⟩
      have := (reading.unread_between _ (read use)).2
      omega
  · simp

end Piece

structure Lowered (start stop : Lowering) (symbols : List Symbol) (scope : List String) (run : Run)
    (result : Nat) : Prop where
  named : run.name = temporary result
  plain_last : run.last.value.isFunction = false
  piece : Piece start stop symbols scope run.all [result]

namespace Lowered

theorem of_piece {last : Instr Block}
    (piece : Piece start stop symbols scope (front ++ [last]) [result])
    (named : last.name = temporary result) (plain_last : last.value.isFunction = false)
    (same : symbols.Perm symbols') : Lowered start stop symbols' scope ⟨front, last⟩ result :=
  ⟨named, plain_last, piece.perm same⟩

theorem ends (lowered : Lowered start stop symbols scope run result) (front : Code)
    (label : String) : Block.Ends (.mk label (front ++ run.all)) := by
  refine ⟨front ++ run.front, run.last, (append_assoc ..).symm, ?_, lowered.plain_last⟩
  exact (congrArg isTemporary lowered.named).trans (isTemporary_temporary result)

theorem result? (lowered : Lowered start stop symbols scope run result) (front : Code)
    (label : String) : Block.result? (.mk label (front ++ run.all)) = some (temporary result) := by
  rw [← lowered.named, Block.result?, Block.body, Run.all, ← append_assoc, getLast?_concat]
  rfl

theorem after (front : Piece start middle symbols scope code unread)
    (lowered : Lowered middle stop symbols' (code.map Instr.name ++ scope) run result) :
    Lowered start stop (symbols ++ symbols') scope (run.after code) result where
  named := lowered.named
  plain_last := lowered.plain_last
  piece := by
    have all : (run.after code).all = code ++ run.all := append_assoc ..
    rw [all]
    exact (front.append lowered.piece).forget (by simp) (subset_append_right _ _)

theorem perm (lowered : Lowered start stop symbols scope run result)
    (same : symbols.Perm symbols') : Lowered start stop symbols' scope run result :=
  { lowered with piece := lowered.piece.perm same }

theorem bind (lowered : Lowered start stop symbols scope run result)
    (fine : isTemporary symbol.name = false) (typed : start.table.contains symbol.name = true)
    (type : Ty) :
    Piece start { stop with table := (stop.table.erase run.name).insert symbol.name type }
      (symbol :: symbols) scope
      (Run.all { run with last := { run.last with name := symbol.name } }) [] := by
  obtain ⟨front, last⟩ := run
  obtain ⟨named, plain_last, piece⟩ := lowered
  have no_params : last.value.params = [] := by
    cases shape : last.value with
    | function => simp [shape, Value.isFunction] at plain_last
    | _ => rfl
  let inner := last.value.blocks.flatMap Code.blockInstrs
  let renamed : Instr Block := { last with name := symbol.name }
  have moved (instr : Instr Block) (same : instr.value = last.value) :
      (Code.instrs (front ++ [instr])).Perm (instr :: (Code.instrs front ++ inner)) := by
    simp [inner, Code.instrs_append, Code.instrs_cons, Code.instrs, same]
  obtain ⟨front_fits, last_fits⟩ := Code.inScope_append.mp piece.fits
  constructor
  · refine Code.inScope_append.mpr ⟨front_fits, ?_⟩
    obtain ⟨id, name, _, value⟩ := last
    cases value with
    | op => exact ⟨last_fits.1, trivial⟩
    | branch => exact ⟨last_fits.1, last_fits.2.1, last_fits.2.2.1, trivial⟩
    | function => simp [Value.isFunction] at plain_last
  · intro instr mem
    rcases mem_cons.mp ((moved renamed rfl).mem_iff.mp mem) with rfl | mem
    · exact piece.plain last ((moved last rfl).mem_iff.mpr (.head _))
    · exact piece.plain instr ((moved last rfl).mem_iff.mpr (.tail _ mem))
  · have tally := (piece.tally.perm (.refl _) (moved last rfl)).rename named no_params fine typed type
    exact tally.perm (.refl _) (moved renamed rfl).symm
  · have reading := piece.reading.perm (moved last rfl)
    refine .perm ?_ (moved renamed rfl).symm
    exact {
      temporaries_le := reading.temporaries_le
      consistent := reading.consistent
      between := reading.between
      unread_nodup := nodup_nil
      unread_between := forall_mem_nil _
      unread := forall_mem_nil _ }
  · exact forall_mem_nil _

theorem function {params : List Symbol} (label : String) (span : Span)
    (lowered : Lowered start stop symbols (symbol.name :: params.map Symbol.name ++ scope) run result)
    (fine : ∀ bound ∈ symbol :: params, isTemporary bound.name = false) :
    Piece start { stop with instructions := stop.instructions + 1 }
      (symbols ++ symbol :: params) scope
      [⟨stop.instructions, symbol.name, span,
        .function (params.map Symbol.name) (.mk label run.all) false⟩] [] := by
  let instr : Instr Block := ⟨stop.instructions, symbol.name, span,
    .function (params.map Symbol.name) (.mk label run.all) false⟩
  have uses : instr.value.uses = [(temporary result, .result)] := by
    have := lowered.result? [] label
    rw [nil_append] at this
    simp [instr, Value.uses, this]
  have moved : (Code.instrs run.all ++ [instr]).Perm (Code.instrs [instr]) := by
    simp [instr, Code.instrs, Code.blockInstrs]
  have tally : Tally stop { stop with instructions := stop.instructions + 1 } (symbol :: params) [instr] :=
    .named span rfl fine rfl rfl fun _ => Iff.rfl
  have reading : Reading start { stop with instructions := stop.instructions + 1 }
      (Code.instrs run.all ++ [instr]) [] := by
    refine lowered.piece.reading.read (Nat.le_refl _) ?_ ?_ nodup_nil (forall_mem_nil _)
    · intro n role role' first second
      rw [uses, mem_singleton, Prod.mk.injEq] at first second
      exact first.2.trans second.2.symm
    · intro n role use
      rw [uses, mem_singleton, Prod.mk.injEq] at use
      exact .inl (mem_singleton.mpr (temporary_inj use.1))
  constructor
  · exact ⟨lowered.piece.fits, trivial⟩
  · intro other mem
    rcases mem_append.mp (moved.mem_iff.mpr mem) with mem | mem
    · exact lowered.piece.plain other mem
    · rw [mem_singleton.mp mem]
      exact lowered.ends [] label
  · exact (lowered.piece.tally.append tally).perm (.refl _) moved
  · exact reading.perm moved
  · exact forall_mem_nil _

end Lowered

namespace Lower

structure Ready (count : Nat) (scope : List Symbol) (names : List String) (state : Lowering)
    (expr : TypedExpr) : Prop where
  fits : Scoped isFine count scope expr.erase
  shaped : Shaped expr
  visible : ∀ symbol ∈ scope, symbol.name ∈ names ∧ isTemporary symbol.name = false
  typed : ∀ bound ∈ expr.names, state.table.contains bound.symbol.name = true
  clear : state.Clear

variable {scope : List Symbol} {names' : List String} {state state' : Lowering} {expr : TypedExpr}

section

variable (ready : Ready count scope names state expr)
include ready

theorem Ready.fine : ∀ bound ∈ expr.binds, isTemporary bound.symbol.name = false := by
  intro _ mem
  refine Symbol.isTemporary_name (ready.fits.binds _ ?_)
  rw [Expr.erase, Expr.binds_map]
  exact mem_map_of_mem mem

theorem Ready.typed_binds :
    ∀ bound ∈ expr.binds, state.table.contains bound.symbol.name = true := fun bound mem =>
  ready.typed bound (expr.names_perm.mem_iff.mpr (mem_append_left _ mem))

theorem Ready.part {bounds : List Bound} {inner : TypedExpr} (mem : (bounds, inner) ∈ expr.parts)
    (subset : names ⊆ names') (seen : ∀ bound ∈ bounds, bound.symbol.name ∈ names') :
    Ready count (bounds.map Bound.symbol ++ scope) names' state inner where
  fits := by
    refine ready.fits.part _ ?_
    rw [Expr.erase, Expr.parts_map]
    exact mem_map_of_mem mem
  shaped := ready.shaped.part (mem_map_of_mem mem)
  visible symbol there := by
    rcases mem_append.mp there with here | around
    · obtain ⟨bound, own, rfl⟩ := mem_map.mp here
      exact ⟨seen bound own, ready.fine bound (Expr.mem_binds_of_part mem own)⟩
    · exact ⟨subset (ready.visible symbol around).1, (ready.visible symbol around).2⟩
  typed bound here := ready.typed bound (expr.names_perm.mem_iff.mpr
    (mem_append_right _ (mem_flatMap.mpr ⟨_, mem, here⟩)))
  clear := ready.clear

theorem Ready.inner {inner : TypedExpr} (mem : ([], inner) ∈ expr.parts) :
    Ready count scope names state inner :=
  ready.part mem (List.Subset.refl _) nofun

theorem Ready.later {instrs : List (Instr Block)} (tally : Tally state state' symbols instrs)
    (subset : names ⊆ names') : Ready count scope names' state' expr :=
  { ready with
    visible := fun symbol mem => ⟨subset (ready.visible symbol mem).1, (ready.visible symbol mem).2⟩
    typed := fun bound mem => (tally.table ready.clear _).mpr (.inl (ready.typed bound mem))
    clear := tally.clear ready.clear }

theorem Ready.next {inner : TypedExpr} (mem : ([], inner) ∈ expr.parts)
    (front : Piece state state' symbols names code unread) :
    Ready count scope (code.map Instr.name ++ names) state' inner :=
  (ready.inner mem).later front.tally (subset_append_right _ _)

end

theorem symbols_perm (expr : TypedExpr) :
    ((expr.binds ++ expr.parts.flatMap fun part => part.2.names).map Bound.symbol).Perm
      (expr.names.map Bound.symbol) :=
  (expr.names_perm.map _).symm

section

variable {post : α → Lowering → Prop}

theorem temporary_then {rest : String → LowerM α}
    (meets : Meets fails (rest (MiddleEnd.temporary state.temporaries))
      { state with temporaries := state.temporaries + 1 } post) :
    Meets fails (temporary >>= rest) state post :=
  meets

theorem setType_then {type : Ty} {rest : Unit → LowerM α}
    (meets : Meets fails (rest ()) { state with table := state.table.insert name type } post) :
    Meets fails (setType name type >>= rest) state post :=
  meets

theorem instruction_then {span : Span} {rest : Instr Block → LowerM α}
    (meets : Meets fails (rest ⟨state.instructions, name, span, value⟩)
      { state with instructions := state.instructions + 1 } post) :
    Meets fails (instruction name span value >>= rest) state post :=
  meets

end

theorem emit_spec {post : Run → Lowering → Prop} (holds : post
      ⟨front, ⟨state.instructions, MiddleEnd.temporary state.temporaries, note.span, value⟩⟩
      (state.emitted note.type)) :
    Meets fails (emit front note value) state post :=
  holds

theorem fields_spec {types : List Ty} (same_length : types.length = binders.length) (index : Nat)
    (piece : Piece start stop symbols names code unread)
    (known : source ∈ unread ∨ (MiddleEnd.temporary source, .value) ∈ usesOf (Code.instrs code))
    (defined : MiddleEnd.temporary source ∈ code.map Instr.name)
    (fine : ∀ binder ∈ binders, isTemporary binder.name.symbol.name = false)
    (typed : ∀ binder ∈ binders, stop.table.contains binder.name.symbol.name = true) :
    Meets (fun _ => False) (fields (MiddleEnd.temporary source) index binders types) stop
      fun loads later =>
        loads.map Instr.name = binders.map (fun binder => binder.name.symbol.name) ∧
        Piece start later (symbols ++ binders.map fun binder => binder.name.symbol) names
          (code ++ loads) [] := by
  induction binders generalizing types stop symbols code unread index with
  | nil =>
    refine .pure ⟨rfl, ?_⟩
    simpa using piece.forget nodup_nil (nil_subset _)
  | cons binder _ ih =>
    cases types with
    | nil => cases same_length
    | cons type _ =>
      have kept (name : String) :
          (stop.table.insert binder.name.symbol.name type).contains name = true ↔
            stop.table.contains name = true := by
        rw [NameMap.contains_insert]
        exact ⟨fun here => here.elim (· ▸ typed binder (.head _)) id, .inr⟩
      let next : Lowering :=
        ⟨stop.temporaries, stop.instructions + 1, stop.table.insert binder.name.symbol.name type⟩
      let instr : Instr Block := ⟨stop.instructions, binder.name.symbol.name, binder.name.symbol.span,
        .op (.field (MiddleEnd.temporary source) index)⟩
      have loaded : Piece start next (symbols ++ [binder.name.symbol]) names (code ++ [instr]) [] :=
        piece.load _ trivial rfl rfl known defined (fine binder (.head _)) rfl rfl kept
      rw [fields]
      refine setType_then (instruction_then ?_)
      refine .bind (ih (Nat.succ.inj same_length) (index + 1) loaded (.inr ?_) ?_
        (fun binder mem => fine binder (.tail _ mem))
        fun binder mem => (kept _).mpr (typed binder (.tail _ mem)))
        fun loads later ⟨named, rest⟩ => ?_
      · simp [instr, usesOf, Code.instrs_append, Code.instrs, Value.uses, Op.values, Op.operands,
          Op.callees]
      · simp [defined]
      · refine .pure ⟨?_, ?_⟩
        · rw [map_cons, map_cons, named]
        · simpa using rest

theorem rename_spec (lowered : Lowered state stop symbols names run result) (clear : state.Clear)
    (fine : isTemporary symbol.name = false) (typed : state.table.contains symbol.name = true) :
    Meets (fun _ => False) (rename run symbol.name) stop fun renamed later =>
      symbol.name ∈ renamed.all.map Instr.name ∧
        Piece state later (symbol :: symbols) names renamed.all [] := by
  have known : stop.table.contains run.name = true := by
    refine (lowered.piece.tally.table clear _).mpr (.inr ⟨?_, ?_⟩)
    · exact (congrArg isTemporary lowered.named).trans (isTemporary_temporary result)
    · exact Code.name_mem_defs (mem_append_right _ (.head _))
  refine .get ?_
  dsimp only
  split
  · next missing => simp [NameMap.contains, missing] at known
  · next type _ => exact .set (.pure ⟨by simp [Run.all], lowered.bind fine typed type⟩)

inductive Operates : TypedExpr → List TypedExpr → (List String → Op) → Prop
  | lit (note : Note) (value : Literal) : Operates (.lit note value) [] fun _ => .const value
  | unary (note : Note) (op : UnaryOp) (operand : TypedExpr) :
    Operates (.unary note op operand) [operand] fun names => .unary op (names.getD 0 "")
  | binary (note : Note) (op : BinaryOp) (lhs rhs : TypedExpr) :
    Operates (.binary note op lhs rhs) [lhs, rhs] fun names => .binary op (names.getD 0 "") (names.getD 1 "")
  | tuple (note : Note) (elements : List TypedExpr) : Operates (.tuple note elements) elements .tuple
  | arrayMake (note : Note) (size element : TypedExpr) :
    Operates (.arrayMake note size element) [size, element] fun names =>
      .arrayMake (names.getD 0 "") (names.getD 1 "")
  | arrayLit (note : Note) (elements : List TypedExpr) : Operates (.arrayLit note elements) elements .arrayLit
  | arrayLen (note : Note) (array : TypedExpr) :
    Operates (.arrayLen note array) [array] fun names => .arrayLen (names.getD 0 "")
  | arrayGet (note : Note) (array index : TypedExpr) :
    Operates (.arrayGet note array index) [array, index] fun names =>
      .arrayGet (names.getD 0 "") (names.getD 1 "")
  | arraySet (note : Note) (array index value : TypedExpr) :
    Operates (.arraySet note array index value) [array, index, value] fun names =>
      .arraySet (names.getD 0 "") (names.getD 1 "") (names.getD 2 "")
  | some (note : Note) (element : TypedExpr) :
    Operates (.some note element) [element] fun names => .some (names.getD 0 "")
  | none (note : Note) : Operates (.none note) [] fun _ => .none

namespace Operates

section

variable (operates : Operates whole parts make)
include operates

theorem expr_eq :
    Lower.expr whole =
      Lower.exprs parts >>= fun (front, names) => emit front whole.note (.op (make names)) := by
  cases operates <;> simp [Lower.expr, Lower.exprs, Expr.note]

theorem parts_eq : whole.parts = parts.map (Prod.mk []) := by
  cases operates <;> rfl

theorem binds_eq : whole.binds = [] := by
  cases operates <;> rfl

theorem plain (names : List String) : Value.Plain (.op (make names)) := by
  cases operates <;> trivial

theorem callees (names : List String) : (make names).callees = [] := by
  cases operates <;> rfl

theorem operands (length : names.length = parts.length) : (make names).operands = names := by
  rcases names with _ | ⟨_, _ | ⟨_, _ | ⟨_, _ | _⟩⟩⟩ <;> cases operates <;> simp_all [Op.operands]

end

end Operates

def Lowers (count : Nat) (scope : List Symbol) (expr : TypedExpr) : Prop :=
  ∀ {names : List String} {state : Lowering}, Ready count scope names state expr →
    Meets (fun _ => False) (Lower.expr expr) state fun run stop =>
      ∃ result, Lowered state stop (expr.names.map Bound.symbol) names run result

theorem exprs_spec {exprs : List TypedExpr} (each : ∀ expr ∈ exprs, Lowers count scope expr)
    (ready : ∀ expr ∈ exprs, Ready count scope names state expr) :
    Meets (fun _ => False) (Lower.exprs exprs) state fun (front, results) stop =>
      ∃ numbers : List Nat, results = numbers.map MiddleEnd.temporary ∧ numbers.length = exprs.length ∧
        Piece state stop ((exprs.flatMap Expr.names).map Bound.symbol) names front numbers := by
  induction exprs generalizing names state with
  | nil => exact .pure ⟨[], rfl, rfl, .nil state names⟩
  | cons expr exprs ih =>
    refine .bind (each expr (.head _) (ready expr (.head _))) ?_
    rintro run middle ⟨result, lowered⟩
    have later : ∀ expr ∈ exprs,
        Ready count scope (run.all.map Instr.name ++ names) middle expr := fun expr mem =>
      (ready expr (.tail _ mem)).later lowered.piece.tally (subset_append_right _ _)
    refine .bind (ih (fun expr mem => each expr (.tail _ mem)) later) ?_
    rintro ⟨front, results⟩ stop ⟨numbers, rfl, length, piece⟩
    refine .pure ⟨result :: numbers, ?_, congrArg (· + 1) length, ?_⟩
    · rw [lowered.named, map_cons]
    · simpa using lowered.piece.append piece

theorem Operates.spec (operates : Operates whole parts make)
    (ih : ∀ part ∈ parts, Lowers count scope part) : Lowers count scope whole := by
  intro _ _ ready
  rw [operates.expr_eq]
  refine .bind (exprs_spec ih fun part mem => ready.inner (by simp [operates.parts_eq, mem])) ?_
  rintro ⟨_, _⟩ _ ⟨_, rfl, length, piece⟩
  refine emit_spec ⟨_, .of_piece (piece.emit_values whole.note (operates.plain _) (operates.callees _) ?_)
    rfl rfl ?_⟩
  · rw [operates.operands (by simpa using length)]
    exact fun _ => id
  · simpa [operates.binds_eq, operates.parts_eq, flatMap_map] using symbols_perm whole

theorem cond_spec {test yes no : TypedExpr} (test_ih : Lowers count scope test)
    (yes_ih : Lowers count scope yes) (no_ih : Lowers count scope no) :
    Lowers count scope (.cond note test yes no) := by
  intro _ _ ready
  refine .bind (test_ih (ready.inner (.head _))) ?_
  rintro _ _ ⟨_, test_lowered⟩
  refine .bind (yes_ih (ready.next (by simp [Expr.parts]) test_lowered.piece)) ?_
  rintro _ _ ⟨_, yes_lowered⟩
  refine .bind (no_ih ((ready.next (by simp [Expr.parts]) test_lowered.piece).later
    yes_lowered.piece.tally (List.Subset.refl _))) ?_
  rintro _ _ ⟨_, no_lowered⟩
  have arms := yes_lowered.piece.tally.append no_lowered.piece.tally
  have reading := yes_lowered.piece.reading.append no_lowered.piece.reading
  rw [test_lowered.named]
  refine emit_spec ⟨_, .of_piece (.branch note test_lowered.piece.fits yes_lowered.piece.fits
    no_lowered.piece.fits (test_lowered.piece.defined _ (by simp)) (yes_lowered.ends [] _)
    (no_lowered.ends [] _) (yes_lowered.result? [] _) (no_lowered.result? [] _) (.refl _) ?_
    (test_lowered.piece.tally.append arms) (test_lowered.piece.reading.append reading)) rfl rfl ?_⟩
  · intro instr mem
    rcases mem_append.mp mem with mem | mem
    · exact test_lowered.piece.plain instr mem
    · exact (mem_append.mp mem).elim (yes_lowered.piece.plain instr)
        (no_lowered.piece.plain instr)
  · simpa [Expr.binds, Expr.parts] using symbols_perm (.cond note test yes no)

theorem letIn_spec (bound_ih : Lowers count scope bound)
    (body_ih : Lowers count (binder.name.symbol :: scope) body) :
    Lowers count scope (.letIn note binder bound body) := by
  intro names state ready
  refine .bind (bound_ih (ready.inner (.head _))) ?_
  rintro run _ ⟨result, lowered⟩
  have fine := ready.fine binder.name (by simp [Expr.binds])
  have typed := ready.typed_binds binder.name (by simp [Expr.binds])
  refine .bind (rename_spec lowered ready.clear fine typed) ?_
  rintro renamed later ⟨named, front⟩
  have body_ready : Ready count (binder.name.symbol :: scope) (renamed.all.map Instr.name ++ names)
      state body := by
    refine ready.part (by simp [Expr.parts] : ([binder.name], body) ∈ _)
      (subset_append_right _ _) fun _ mem => ?_
    rw [mem_singleton.mp mem]
    exact mem_append_left _ named
  refine .bind (body_ih (body_ready.later front.tally (List.Subset.refl _))) ?_
  rintro run _ ⟨result, lowered⟩
  refine .pure ⟨result, (lowered.after front).perm ?_⟩
  simpa [Expr.binds, Expr.parts] using symbols_perm (.letIn note binder bound body)

theorem letRec_spec {name : Bound} {params : List (Binder Bound Annotation)}
    {result : Option Annotation} {rest : TypedExpr}
    (body_ih : Lowers count ((params.map Binder.name ++ [name]).map Bound.symbol ++ scope) body)
    (rest_ih : Lowers count (name.symbol :: scope) rest) :
    Lowers count scope (.letRec note name params result body rest) := by
  intro names state ready
  let bounds := params.map fun param => param.name.symbol
  have fine : ∀ bound ∈ name.symbol :: bounds, isTemporary bound.name = false := by
    simpa [Expr.binds, bounds] using ready.fine
  have body_ready : Ready count ((params.map Binder.name ++ [name]).map Bound.symbol ++ scope)
      (name.symbol.name :: bounds.map Symbol.name ++ names) state body := by
    refine ready.part (by simp [Expr.parts]) (subset_append_right _ _) fun bound mem => ?_
    simp only [mem_append, mem_map, mem_singleton] at mem
    rcases mem with ⟨param, mem, rfl⟩ | rfl
    · exact mem_append_left _ (mem_cons_of_mem _
        (mem_map_of_mem (mem_map_of_mem mem)))
    · exact mem_append_left _ (.head _)
  refine .bind (body_ih body_ready) ?_
  rintro _ _ ⟨_, lowered⟩
  have front := lowered.function ("body (" ++ name.symbol.name ++ ")") name.symbol.span fine
  rw [List.map_map] at front
  refine instruction_then ?_
  have rest_ready : Ready count (name.symbol :: scope) (name.symbol.name :: names) state rest :=
    ready.part (by simp [Expr.parts] : ([name], rest) ∈ _) (subset_cons_self _ _) (by simp)
  refine .bind (rest_ih (rest_ready.later front.tally (List.Subset.refl _))) ?_
  rintro _ _ ⟨last, rest_lowered⟩
  refine .pure ⟨last, (rest_lowered.after front).perm (.trans (perm_append_comm.append_right _) ?_)⟩
  simpa [Expr.binds, Expr.parts, bounds, Function.comp_def] using
    symbols_perm (.letRec note name params result body rest)

theorem letTuple_spec (bound_ih : Lowers count scope bound)
    (body_ih : Lowers count ((binders.map Binder.name).map Bound.symbol ++ scope) body) :
    Lowers count scope (.letTuple note binders bound body) := by
  intro names state ready
  obtain ⟨types, shape, same_length⟩ : ∃ types, bound.type = .tuple types ∧ types.length = binders.length := by
    cases ready.shaped with
    | node tuple => exact tuple _ _ _ _ rfl
  have fine : ∀ binder ∈ binders, isTemporary binder.name.symbol.name = false := by
    simpa [Expr.binds] using ready.fine
  have typed : ∀ binder ∈ binders, state.table.contains binder.name.symbol.name = true := by
    simpa [Expr.binds] using ready.typed_binds
  refine .bind (bound_ih (ready.inner (.head _))) ?_
  rintro run middle ⟨_, lowered⟩
  have known : ∀ binder ∈ binders, middle.table.contains binder.name.symbol.name = true :=
    fun binder mem => (lowered.piece.tally.table ready.clear _).mpr (.inl (typed binder mem))
  rw [shape, lowered.named]
  refine .bind (fields_spec same_length 0 lowered.piece (.inl (by simp))
    (lowered.piece.defined _ (by simp)) fine known) ?_
  rintro loads later ⟨named, front⟩
  have body_ready : Ready count ((binders.map Binder.name).map Bound.symbol ++ scope)
      ((run.all ++ loads).map Instr.name ++ names) state body := by
    refine ready.part (by simp [Expr.parts]) (subset_append_right _ _) fun _ mem => ?_
    obtain ⟨binder, there, rfl⟩ := mem_map.mp mem
    refine mem_append_left _ ?_
    rw [map_append, named]
    exact mem_append_right _ (mem_map_of_mem there)
  refine .bind (body_ih (body_ready.later front.tally (List.Subset.refl _))) ?_
  rintro _ _ ⟨last, body_lowered⟩
  refine .pure ⟨last, (body_lowered.after front).perm (.trans (perm_append_comm.append_right _) ?_)⟩
  simpa [Expr.binds, Expr.parts, Function.comp_def] using
    symbols_perm (.letTuple note binders bound body)

theorem matchOption_spec {target someArm noneArm : TypedExpr} (target_ih : Lowers count scope target)
    (some_ih : Lowers count (binder.name.symbol :: scope) someArm)
    (none_ih : Lowers count scope noneArm) :
    Lowers count scope (.matchOption note target binder someArm noneArm) := by
  intro names state ready
  obtain ⟨element, shape⟩ : ∃ element, target.type = .option element := by
    cases ready.shaped with
    | node _ option => exact option _ _ _ _ _ rfl
  have fine := ready.fine binder.name (by simp [Expr.binds])
  have typed := ready.typed_binds binder.name (by simp [Expr.binds])
  refine .bind (target_ih (ready.inner (.head _))) ?_
  rintro run first ⟨source, target_lowered⟩
  rw [shape, target_lowered.named]
  refine temporary_then (setType_then (instruction_then ?_))
  let check : Instr Block := ⟨first.instructions, MiddleEnd.temporary first.temporaries, target.span,
    .op (.isSome (MiddleEnd.temporary source))⟩
  have front : Piece state _ _ names (run.all ++ [check]) [first.temporaries] :=
    target_lowered.piece.emit_values ⟨target.span, .bool⟩ trivial rfl (by simp [Op.operands])
  have some_ready : Ready count (binder.name.symbol :: scope)
      (binder.name.symbol.name :: ((run.all ++ [check]).map Instr.name ++ names)) state someArm :=
    ready.part (by simp [Expr.parts] : ([binder.name], someArm) ∈ _)
      (subset_cons_of_subset _ (subset_append_right _ _)) (by simp)
  refine .bind (some_ih (some_ready.later front.tally (List.Subset.refl _))) ?_
  rintro someRun second ⟨someResult, some_lowered⟩
  refine setType_then (instruction_then ?_)
  let content : Instr Block := ⟨second.instructions, binder.name.symbol.name, binder.name.symbol.span,
    .op (.unwrap (MiddleEnd.temporary source))⟩
  let third : Lowering := ⟨second.temporaries, second.instructions + 1,
    second.table.insert binder.name.symbol.name element⟩
  have known : second.table.contains binder.name.symbol.name = true :=
    ((front.tally.append some_lowered.piece.tally).table ready.clear _).mpr (.inl typed)
  have content_tally : Tally second third [binder.name.symbol] [content] := by
    refine .named binder.name.symbol.span rfl (by simpa using fine) rfl rfl fun name => ?_
    rw [NameMap.contains_insert]
    exact ⟨fun here => here.elim (· ▸ known) id, .inr⟩
  have tally := (front.tally.append some_lowered.piece.tally).append content_tally
  have none_ready := (ready.inner (by simp [Expr.parts] : ([], noneArm) ∈ _)).later tally
    (subset_append_right ((run.all ++ [check]).map Instr.name) names)
  refine .bind (none_ih none_ready) ?_
  rintro noneRun _ ⟨_, none_lowered⟩
  -- the content is read from the source, which has been read by the check
  have used : (MiddleEnd.temporary source, .value) ∈
      usesOf (Code.instrs (run.all ++ [check]) ++ Code.instrs someRun.all) := by
    rw [usesOf_append, Code.instrs_append, usesOf_append]
    exact mem_append_left _ (mem_append_right _ (.head _))
  have only {n : Nat} {role : Role}
      (use : (MiddleEnd.temporary n, role) ∈ content.value.uses) :
      n = source ∧ role = .value := by
    obtain ⟨same, role_same⟩ := Prod.mk.injEq .. ▸ mem_singleton.mp use
    exact ⟨temporary_inj same, role_same⟩
  have before := front.reading.append some_lowered.piece.reading
  have reading : Reading state third
      (Code.instrs (run.all ++ [check]) ++ Code.instrs someRun.all ++ [content])
      [first.temporaries, someResult] := by
    refine before.read (Nat.le_refl _) ?_ ?_ before.unread_nodup fun n mem => ⟨.inl mem, ?_⟩
    · intro n role role' left right
      exact (only left).2.trans (only right).2.symm
    · intro n role use
      obtain ⟨rfl, rfl⟩ := only use
      exact .inr used
    · intro role use
      obtain ⟨rfl, rfl⟩ := only use
      exact before.unread n mem _ used
  refine emit_spec ⟨_, .of_piece (.branch note front.fits
    ⟨?_, some_lowered.piece.fits⟩ none_lowered.piece.fits (front.defined _ (by simp))
    (some_lowered.ends [content] _) (none_lowered.ends [] _) (some_lowered.result? [content] _)
    (none_lowered.result? [] _) ?_ ?_ (tally.append none_lowered.piece.tally)
    (reading.append none_lowered.piece.reading)) rfl rfl ?_⟩
  · intro operand mem
    rw [mem_singleton.mp mem]
    refine mem_append_left _ ?_
    rw [map_append]
    exact mem_append_left _ (target_lowered.piece.defined source (by simp))
  · have swap : (Code.instrs someRun.all ++ [content]).Perm (content :: Code.instrs someRun.all) :=
      perm_append_comm
    simpa [Code.instrs, content] using (swap.append_left _).append_right (Code.instrs noneRun.all)
  · intro instr mem
    rcases mem_append.mp mem with mem | mem
    · rcases mem_append.mp mem with mem | mem
      · exact (mem_append.mp mem).elim (front.plain instr) (some_lowered.piece.plain instr)
      · rw [mem_singleton.mp mem]
        trivial
    · exact none_lowered.piece.plain instr mem
  · refine .trans (perm_append_comm.append_right _) ?_
    simpa [Expr.binds, Expr.parts] using symbols_perm (.matchOption note target binder someArm noneArm)

theorem apply_spec {callee : TypedExpr} {args : List TypedExpr} (callee_ih : Lowers count scope callee)
    (args_ih : ∀ arg ∈ args, Lowers count scope arg) :
    Lowers count scope (.apply note callee args) := by
  intro _ _ ready
  refine .bind (callee_ih (ready.inner (.head _))) ?_
  rintro _ _ ⟨target, lowered⟩
  refine .bind (exprs_spec args_ih fun arg mem =>
    ready.next (by simp [Expr.parts, mem]) lowered.piece) ?_
  rintro ⟨_, _⟩ _ ⟨numbers, rfl, -, piece⟩
  have both := lowered.piece.append piece
  rw [lowered.named]
  refine emit_spec ⟨_, .of_piece (both.emit note rfl ?_ ?_) rfl rfl ?_⟩
  · -- the callee is none of the arguments
    have apart := (nodup_cons.mp both.reading.unread_nodup).1
    intro _ _ _ first second
    simp only [Value.uses, Op.callees, Op.values, reduceCtorEq, if_false, map_cons,
      map_nil, singleton_append, List.map_map, mem_cons, Prod.mk.injEq,
      mem_map, Function.comp_apply] at first second
    rcases first with ⟨here, rfl⟩ | ⟨arg, mem, here, rfl⟩ <;>
      rcases second with ⟨there, rfl⟩ | ⟨other, mem', there, rfl⟩
    · rfl
    · exact absurd (temporary_inj (there.trans here) ▸ mem') apart
    · exact absurd (temporary_inj (here.trans there) ▸ mem) apart
    · rfl
  · intro operand mem
    have named : operand ∈ (target :: numbers).map MiddleEnd.temporary := by
      simpa [Op.operands] using mem
    obtain ⟨n, there, rfl⟩ := mem_map.mp named
    exact .inl ⟨n, there, rfl⟩
  · simpa [Expr.binds, Expr.parts, flatMap_map] using symbols_perm (.apply note callee args)

theorem expr_spec (expr : TypedExpr) : Lowers count scope expr := by
  induction expr using Expr.induction generalizing scope with
  | var note use =>
    intro names state ready
    rw [Lower.expr]
    split
    · next symbol target =>
      have visible := ready.visible symbol (ready.fits.bound rfl target)
      refine emit_spec ⟨_, .of_piece ((Piece.nil state names).emit note visible.2
        (consistent_values rfl) fun _ mem => .inr ?_) rfl rfl (symbols_perm (.var note use))⟩
      rw [mem_singleton.mp mem]
      exact visible
    · exact emit_spec ⟨_, .of_piece ((Piece.nil state names).emit_values note trivial rfl nofun)
        rfl rfl (symbols_perm (.var note use))⟩
  | cond _ _ _ _ test_ih yes_ih no_ih => exact cond_spec test_ih yes_ih no_ih
  | letIn _ _ _ _ bound_ih body_ih => exact letIn_spec bound_ih body_ih
  | letRec _ _ _ _ _ _ body_ih rest_ih => exact letRec_spec body_ih rest_ih
  | letTuple _ _ _ _ bound_ih body_ih => exact letTuple_spec bound_ih body_ih
  | apply _ _ _ callee_ih args_ih =>
    exact apply_spec callee_ih fun arg mem => args_ih arg mem
  | matchOption _ _ _ _ _ target_ih some_ih none_ih =>
    exact matchOption_spec target_ih some_ih none_ih
  | typed note child hint ih =>
    intro _ _ ready
    refine (ih (ready.inner (.head _))).weaken ?_
    rintro _ _ ⟨result, lowered⟩
    exact ⟨result, lowered.perm (by
      simpa [Expr.binds, Expr.parts] using symbols_perm (.typed note child hint))⟩
  | _ => exact Operates.spec (by constructor) (by simp_all)

end Lower

def OneRole (uses : List (String × Role)) : Prop :=
  ∀ name role role', isTemporary name = true → (name, role) ∈ uses → (name, role') ∈ uses →
    role = role'

structure Module.Raw (module : Module) : Prop where
  fits : Code.InScope [] module.entry.body
  defs_nodup : (Code.defs module.entry.body).Nodup
  ids_nodup : (Code.ids module.entry.body).Nodup
  plain : ∀ instr ∈ Code.instrs module.entry.body, instr.value.Plain
  ends : module.entry.Ends
  one_role : OneRole
    (Code.uses module.entry.body ++ module.entry.result?.toList.map (·, .result))
  table (name : String) :
    module.table.contains name = true ↔ name ∈ Code.defs module.entry.body

theorem NameMap.contains_foldl_insert (entries : List (String × α)) (map : NameMap α) (name : String) :
    (entries.foldl (fun map entry => map.insert entry.1 entry.2) map).contains name = true ↔
      name ∈ entries.map Prod.fst ∨ map.contains name = true := by
  induction entries generalizing map with
  | nil => simp
  | cons _ _ ih =>
    rw [foldl_cons, ih, contains_insert, map_cons, mem_cons]
    tauto

theorem NameMap.contains_ofList (entries : List (String × α)) (name : String) :
    (NameMap.ofList entries).contains name = true ↔ name ∈ entries.map Prod.fst := by
  rw [ofList, contains_foldl_insert]
  simp [contains]

theorem Typed.contains_table (program : Typed) (name : String) :
    program.table.contains name = true ↔
      name ∈ (program.body.names.map Bound.symbol).map Symbol.name := by
  rw [table, NameMap.contains_ofList]
  simp [Function.comp_def]

theorem nodup_of_filter (test : String → Bool) (yes : (names.filter test).Nodup)
    (no : (names.filter fun name => !test name).Nodup) : names.Nodup := by
  induction names with
  | nil => exact nodup_nil
  | cons name _ ih =>
    cases holds : test name with
    | true =>
      simp only [filter_cons, holds, if_true, Bool.not_true, Bool.false_eq_true, if_false,
        nodup_cons] at yes no
      refine nodup_cons.mpr ⟨fun mem => yes.1 ?_, ih yes.2 no⟩
      exact mem_filter.mpr ⟨mem, holds⟩
    | false =>
      simp only [filter_cons, holds, if_true, Bool.not_false, Bool.false_eq_true, if_false,
        nodup_cons] at yes no
      refine nodup_cons.mpr ⟨fun mem => no.1 ?_, ih yes no.2⟩
      exact mem_filter.mpr ⟨mem, by simp [holds]⟩

theorem Typed.lower_spec {program : Typed} (fits : Scoped isFine count [] program.body.erase)
    (shaped : Shaped program.body) (distinct : (program.body.erase.names.map Symbol.number).Nodup) :
    Yields (fun _ => False) program.lower Module.Raw := by
  have same_names : program.body.erase.names.Perm (program.body.names.map Bound.symbol) :=
    Expr.names_map_perm _ _ _ _ _
  have fine : ∀ symbol ∈ program.body.names.map Bound.symbol, isTemporary symbol.name = false :=
    fun symbol mem => Symbol.isTemporary_name (fits.names symbol (same_names.mem_iff.mpr mem))
  let start : Lowering := { table := program.table }
  have clear : start.Clear := by
    intro _ _ typed
    obtain ⟨symbol, mem, same⟩ := mem_map.mp ((program.contains_table _).mp typed)
    have clean := fine symbol mem
    rw [same, isTemporary_temporary] at clean
    cases clean
  have ready : Lower.Ready count [] [] start program.body := by
    refine ⟨fits, shaped, nofun, fun _ mem => ?_, clear⟩
    exact (program.contains_table _).mpr (mem_map_of_mem (mem_map_of_mem mem))
  refine .bind (Lower.expr_spec program.body ready) ?_
  rintro ⟨run, stop⟩ ⟨result, lowered⟩
  refine .pure ?_
  have tally := lowered.piece.tally
  have reading := lowered.piece.reading
  constructor
  · exact lowered.piece.fits
  · refine nodup_of_filter isTemporary tally.temporaries_nodup (tally.symbols_perm.nodup_iff.mpr ?_)
    exact Symbol.nodup_names ((same_names.map _).nodup_iff.mp distinct)
  · exact tally.ids_nodup
  · exact lowered.piece.plain
  · exact lowered.ends [] _
  · have result_only : Block.result? (.mk "program" run.all) = some (temporary result) :=
      lowered.result? [] _
    have unread := reading.unread result (by simp)
    intro name role role' temp first second
    have defined : name ∈ Code.defs run.all := by
      rcases mem_append.mp first with use | last
      · exact (lowered.piece.fits.mem_of_use use).resolve_left (nomatch ·)
      · obtain ⟨name, found, same⟩ := mem_map.mp last
        cases same
        exact Code.mem_defs_of_result? (Option.mem_toList.mp found)
    obtain ⟨n, _, rfl⟩ := tally.temporaries_between name defined temp
    simp only [Block.body, result_only, Option.toList_some, map_cons, map_nil,
      mem_append, mem_singleton, Prod.mk.injEq] at first second
    rcases first with first | ⟨here, rfl⟩ <;> rcases second with second | ⟨there, rfl⟩
    · exact reading.consistent n role role' first second
    · exact absurd (there ▸ first) (unread role)
    · exact absurd (here ▸ second) (unread role')
    · rfl
  · intro name
    show stop.table.contains name = true ↔ name ∈ Code.defs run.all
    rw [tally.table clear, program.contains_table, ← tally.symbols_perm.mem_iff, mem_filter]
    cases isTemporary name <;> simp [Code.defs]

end MiddleEnd
