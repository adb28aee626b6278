import MiddleEnd.Proofs.Code.SingleAssignment
import MiddleEnd.Proofs.Exec.Lower

/-! Which temporaries of lowered code are read. A temporary holds the value of a part of an expression, and
the code of the whole reads it, unless the part is what a tuple pattern without names takes apart. -/

namespace MiddleEnd

open List

variable {run : Run} {instr : Instr Block} {front : Code} {id : Nat} {op : Op} {parts : List Term}
  {runs : List Run} {piece : Term × Run} {name source : String} {span : Span} {index : Nat}
  {symbols : List Symbol} {loads : Code}

/-! ### Code by the parts of its expression -/

inductive Composes : Term → List (Term × Run) → Run → Prop
  | strict {whole : Term} {parts : List Term} {op : Op} {runs : List Run} {last : Instr Block}
    (shape : Strict whole parts op) (same_length : parts.length = runs.length)
    (operands : op.operands = runs.map Run.name) (value : last.value = .op op) :
    Composes whole (parts.zip runs) ⟨runs.flatMap Run.all, last⟩
  | bound {note : Span} {ref : Reference} {symbol : Symbol} {last : Instr Block}
    (target : ref.target = .bound symbol) (value : last.value = .op (.ref symbol.name)) :
    Composes (.var note ref) [] ⟨[], last⟩
  | cond {note : Span} {test yes no : Term} {tested first second : Run} {text text' : String} {last : Instr Block}
    (value : last.value = .branch tested.name (.mk text first.all) (.mk text' second.all)) :
    Composes (.cond note test yes no) [(test, tested), (yes, first), (no, second)] ⟨tested.all, last⟩
  | letIn {note : Span} {binder : Binder Symbol Annotation} {bound body : Term} {given rest : Run}
    (named : given.name = binder.name.name) :
    Composes (.letIn note binder bound body) [(bound, given), (body, rest)] (rest.after given.all)
  | letRec {note : Span} {name : Symbol} {params : List (Binder Symbol Annotation)} {result : Option Annotation}
    {body after : Term} {inner rest : Run} {id : Nat} {span : Span} {text : String} {names : List String} :
    Composes (.letRec note name params result body after) [(body, inner), (after, rest)]
      (rest.after [⟨id, name.name, span, .function names (.mk text inner.all) false⟩])
  | letTuple {note : Span} {binders : List (Binder Symbol Annotation)} {bound body : Term} {source rest : Run}
    {loads : Code} (apart : Loads source.name 0 (binders.map Binder.name) loads) :
    Composes (.letTuple note binders bound body) [(bound, source), (body, rest)] (rest.after (source.all ++ loads))
  | apply {note : Span} {callee : Term} {args : List Term} {called : Run} {runs : List Run} {last : Instr Block}
    (same_length : args.length = runs.length)
    (value : last.value = .op (.call .direct called.name (runs.map Run.name))) :
    Composes (.apply note callee args) ((callee, called) :: args.zip runs)
      ⟨called.all ++ runs.flatMap Run.all, last⟩
  | matchOption {note : Span} {target someArm noneArm : Term} {binder : Binder Symbol Annotation}
    {source first second : Run} {check content : Nat} {span span' : Span} {test text text' : String}
    {last : Instr Block}
    (value : last.value = .branch test
      (.mk text (⟨content, binder.name.name, span', .op (.unwrap source.name)⟩ :: first.all))
      (.mk text' second.all)) :
    Composes (.matchOption note target binder someArm noneArm)
      [(target, source), (someArm, first), (noneArm, second)]
      ⟨source.all ++ [⟨check, test, span, .op (.isSome source.name)⟩], last⟩
  | typed {note : Span} {child : Term} {hint : Annotation} {run : Run} :
    Composes (.typed note child hint) [(child, run)] run

def Run.IsCode (label : Nat → String) (term : Term) (run : Run) : Prop :=
  Codes label term run.front run.last.value

/-- The instruction whose value a tuple pattern without names takes apart, somewhere in the code for an
expression. -/
inductive Ignored (label : Nat → String) (instr : Instr Block) : Term → Run → Prop
  | here {note : Span} {bound body : Term} {source rest run : Run}
    (composes : Composes (.letTuple note [] bound body) [(bound, source), (body, rest)] run)
    (bound_code : source.IsCode label bound) (body_code : rest.IsCode label body) (last : source.last = instr) :
    Ignored label instr (.letTuple note [] bound body) run
  | part {whole : Term} {pieces : List (Term × Run)} {run : Run} (composes : Composes whole pieces run)
    (codes : ∀ piece ∈ pieces, piece.2.IsCode label piece.1) {piece : Term × Run} (member : piece ∈ pieces)
    (inner : Ignored label instr piece.1 piece.2) : Ignored label instr whole run

variable {label : Nat → String} {whole : Term} {pieces : List (Term × Run)}

theorem Run.last_cases (mem : instr ∈ run.all) : instr ∈ run.front ∨ instr = run.last := by
  simpa [Run.all] using mem

theorem Run.all_mk (front : Code) (last : Instr Block) : (Run.mk front last).all = front ++ [last] := rfl

theorem Run.all_after (run : Run) (front : Code) : (run.after front).all = front ++ run.all :=
  append_assoc ..

theorem forall_zip_of_forall₂
    (each : Forall₂ (fun part run => Codes label part run.front run.last.value) parts runs) :
    ∀ piece ∈ parts.zip runs, piece.2.IsCode label piece.1 := by
  rintro ⟨part, run⟩ mem
  exact (forall₂_iff_zip.mp each).2 mem

theorem Run.IsCode.exists_pieces (code : run.IsCode label whole) :
    ∃ pieces, Composes whole pieces run ∧ ∀ piece ∈ pieces, piece.2.IsCode label piece.1 := by
  obtain ⟨front, last⟩ := run
  rw [IsCode] at code
  dsimp only at code
  generalize value : last.value = result at code
  cases code with
  | strict shape each operands =>
    exact ⟨_, .strict shape each.length_eq operands value, forall_zip_of_forall₂ each⟩
  | bound target _ => exact ⟨[], .bound target value, nofun⟩
  | cond test_codes yes_codes no_codes =>
    exact ⟨_, .cond value, by simpa [IsCode] using ⟨test_codes, yes_codes, no_codes⟩⟩
  | @letIn note binder bound body given front _ labelled named bound_codes body_codes =>
    exact ⟨_, show Composes _ _ (Run.after ⟨front, last⟩ _) from .letIn named,
      by simpa [IsCode, value] using ⟨bound_codes, body_codes⟩⟩
  | @letRec _ _ _ _ _ _ _ front _ _ _ _ _ labelled named body_codes rest_codes =>
    exact ⟨_, show Composes _ _ (Run.after ⟨front, last⟩ _) from .letRec,
      by simpa [IsCode, value] using ⟨body_codes, rest_codes⟩⟩
  | @letTuple _ _ _ _ _ _ front _ labelled bound_codes apart body_codes =>
    exact ⟨_, show Composes _ _ (Run.after ⟨front, last⟩ _) from .letTuple apart,
      by simpa [IsCode, value] using ⟨bound_codes, body_codes⟩⟩
  | apply callee_codes each =>
    refine ⟨_, .apply each.length_eq value, fun piece mem => ?_⟩
    rcases mem_cons.mp mem with rfl | mem
    · exact callee_codes
    · exact forall_zip_of_forall₂ each piece mem
  | matchOption _ target_codes some_codes none_codes =>
    exact ⟨_, .matchOption value, by simpa [IsCode] using ⟨target_codes, some_codes, none_codes⟩⟩
  | typed child_codes =>
    refine ⟨_, .typed, ?_⟩
    simpa [IsCode, value] using child_codes

namespace Composes

theorem mem_parts (composes : Composes whole pieces run) (mem : piece ∈ pieces) :
    piece.1 ∈ whole.parts.map Prod.snd := by
  cases composes with
  | strict shape =>
    rw [shape.parts_eq]
    simpa using (of_mem_zip mem).1
  | apply =>
    rcases mem_cons.mp mem with rfl | mem
    · simp [Expr.parts]
    · simp [Expr.parts, (of_mem_zip mem).1]
  | bound => cases mem
  | _ =>
    simp only [mem_cons, not_mem_nil, or_false] at mem
    simp [Expr.parts]
    grind

theorem instrs_subset (composes : Composes whole pieces run) (mem : piece ∈ pieces) :
    Code.instrs piece.2.all ⊆ Code.instrs run.all := by
  have among {runs : List Run} (there : piece.2 ∈ runs) :
      Code.instrs piece.2.all ⊆ Code.instrs (runs.flatMap Run.all) := by
    obtain ⟨_, _, rfl⟩ := append_of_mem there
    simp [Code.instrs_append]
  have arms {test text text' : String} {yes no : Code} {last : Instr Block}
      (value : last.value = .branch test (.mk text yes) (.mk text' no)) :
      Code.instrs [last] = last :: (Code.instrs yes ++ Code.instrs no) := by
    simp [Code.instrs_cons, value, Value.blocks, Code.blockInstrs, Code.instrs]
  intro _ there
  cases composes with
  | strict _ =>
    rw [Run.all_mk, Code.instrs_append]
    exact mem_append_left _ (among (of_mem_zip mem).2 there)
  | bound => cases mem
  | cond value =>
    rw [Run.all_mk, Code.instrs_append, arms value]
    simp only [mem_cons, not_mem_nil, or_false] at mem
    rcases mem with rfl | rfl | rfl <;> simp [there]
  | letIn =>
    rw [Run.all_after, Code.instrs_append]
    simp only [mem_cons, not_mem_nil, or_false] at mem
    rcases mem with rfl | rfl <;> simp [there]
  | letRec =>
    rw [Run.all_after, Code.instrs_append]
    simp only [mem_cons, not_mem_nil, or_false] at mem
    rcases mem with rfl | rfl <;> simp [Code.instrs, Code.blockInstrs, there]
  | letTuple =>
    rw [Run.all_after, Code.instrs_append, Code.instrs_append]
    simp only [mem_cons, not_mem_nil, or_false] at mem
    rcases mem with rfl | rfl <;> simp [there]
  | apply =>
    rw [Run.all_mk, Code.instrs_append, Code.instrs_append]
    rcases mem_cons.mp mem with rfl | mem
    · simp [there]
    · exact mem_append_left _ (mem_append_right _ (among (of_mem_zip mem).2 there))
  | matchOption value =>
    rw [Run.all_mk, Code.instrs_append, Code.instrs_append, arms value]
    simp only [mem_cons, not_mem_nil, or_false] at mem
    rcases mem with rfl | rfl | rfl <;> simp [Code.instrs, there]
  | typed =>
    rwa [mem_singleton.mp mem] at there

end Composes

/-! ### Places in blocks -/

namespace Code

theorem innerBlocks_append (front back : Code) :
    innerBlocks (front ++ back) = innerBlocks front ++ innerBlocks back := by
  rw [innerBlocks, instrs_append, flatMap_append]
  rfl

theorem innerBlocks_cons (instr : Instr Block) (rest : Code) :
    innerBlocks (instr :: rest) =
      instr.value.blocks ++
        (instr.value.blocks.flatMap (fun block => innerBlocks block.body) ++ innerBlocks rest) := by
  rw [innerBlocks, instrs_cons, flatMap_cons, flatMap_append, flatMap_assoc]
  simp only [blockInstrs_eq, innerBlocks]

def Inside (code : Code) (instr : Instr Block) : Prop :=
  ∃ block ∈ innerBlocks code, instr ∈ block.body.dropLast

def Has (code : Code) (instr : Instr Block) : Prop := instr ∈ code ∨ code.Inside instr

def Early (code : Code) (instr : Instr Block) : Prop :=
  instr ∈ code.dropLast ∨ code.Inside instr

variable {back : Code}

theorem inside_append : (front ++ back).Inside instr ↔ front.Inside instr ∨ back.Inside instr := by
  simp only [Inside, innerBlocks_append, mem_append, or_and_right, exists_or]

theorem has_append : (front ++ back).Has instr ↔ front.Has instr ∨ back.Has instr := by
  simp only [Has, mem_append, inside_append]
  exact or_or_or_comm ..

theorem inside_singleton {own : Instr Block} :
    Inside [own] instr ↔ ∃ block ∈ own.value.blocks, block.body.Early instr := by
  simp only [Inside, Early, innerBlocks_cons, mem_append, mem_flatMap]
  constructor
  · rintro ⟨block, own_block | ⟨outer, outer_block, deep⟩ | nothing, there⟩
    · exact ⟨block, own_block, .inl there⟩
    · exact ⟨outer, outer_block, .inr ⟨block, deep, there⟩⟩
    · cases nothing
  · rintro ⟨block, own_block, there | ⟨inner, deep, there⟩⟩
    · exact ⟨block, .inl own_block, there⟩
    · exact ⟨inner, .inr (.inl ⟨block, own_block, deep⟩), there⟩

theorem not_inside_op : ¬ Inside [⟨id, name, span, .op op⟩] instr := by
  rw [inside_singleton]
  rintro ⟨_, own, _⟩
  cases own

theorem has_op : Has [⟨id, name, span, .op op⟩] instr ↔ instr = ⟨id, name, span, .op op⟩ := by
  rw [Has, mem_singleton, or_iff_left not_inside_op]

theorem not_has_nil : ¬ Has [] instr := by
  rintro (own | ⟨_, own, _⟩) <;> cases own

theorem exists_has (has : Has (runs.flatMap Run.all) instr) : ∃ run ∈ runs, run.all.Has instr := by
  induction runs with
  | nil => exact (not_has_nil has).elim
  | cons run _ ih =>
    rw [flatMap_cons, has_append] at has
    rcases has with here | later
    · exact ⟨run, .head _, here⟩
    · obtain ⟨other, there, has⟩ := ih later
      exact ⟨other, mem_cons_of_mem _ there, has⟩

end Code

theorem Run.early_all : run.all.Early instr ↔ instr ∈ run.front ∨ run.all.Inside instr := by
  rw [Code.Early, Run.all, dropLast_concat]

theorem Run.early_or_last (has : run.all.Has instr) : run.all.Early instr ∨ instr = run.last := by
  rw [Run.early_all]
  rcases has with there | inside
  · exact (Run.last_cases there).imp_left .inl
  · exact .inl (.inr inside)

theorem Run.early_after (early : (run.after front).all.Early instr) :
    front.Has instr ∨ run.all.Early instr := by
  rw [Run.early_all, Run.all_after, Code.inside_append] at early
  rw [Run.early_all]
  rcases early with there | inside | inside
  · rcases mem_append.mp there with there | there
    · exact .inl (.inl there)
    · exact .inr (.inl there)
  · exact .inl (.inr inside)
  · exact .inr (.inr inside)

theorem Run.early_mk {last : Instr Block} (early : (Run.mk front last).all.Early instr) :
    front.Has instr ∨ ∃ block ∈ last.value.blocks, block.body.Early instr := by
  rw [Run.early_all, Run.all_mk, Code.inside_append, Code.inside_singleton] at early
  rcases early with there | inside | inside
  · exact .inl (.inl there)
  · exact .inl (.inr inside)
  · exact .inr inside

/-! ### What is read -/

theorem Loads.exists_symbol (apart : Loads source index symbols loads) (has : loads.Has instr) :
    ∃ symbol ∈ symbols, instr.name = symbol.name := by
  induction apart with
  | nil => exact (Code.not_has_nil has).elim
  | cons _ ih =>
    rw [← singleton_append, Code.has_append, Code.has_op] at has
    rcases has with rfl | later
    · exact ⟨_, .head _, rfl⟩
    · obtain ⟨symbol, mem, named⟩ := ih later
      exact ⟨symbol, mem_cons_of_mem _ mem, named⟩

theorem Loads.exists_read {symbol : Symbol} (apart : Loads source index (symbol :: symbols) loads) :
    ∃ load ∈ loads, source ∈ load.value.operands := by
  cases apart with
  | cons _ => exact ⟨_, .head _, mem_singleton_self _⟩

theorem Run.reads_of_last (read : name ∈ run.last.value.operands) : run.all.Reads name :=
  ⟨run.last, Code.mem_instrs (mem_append_right _ (mem_singleton_self _)), read⟩

theorem exists_mem_zip (same_length : parts.length = runs.length) (mem : run ∈ runs) :
    ∃ part, (part, run) ∈ parts.zip runs := by
  rw [← map_snd_zip (Nat.le_of_eq same_length.symm)] at mem
  obtain ⟨⟨part, _⟩, there, rfl⟩ := mem_map.mp mem
  exact ⟨part, there⟩

namespace Composes

theorem early_cases (composes : Composes whole pieces run)
    (fine : ∀ symbol ∈ whole.binds, isTemporary symbol.name = false) (temp : isTemporary instr.name = true)
    (early : run.all.Early instr) :
    run.all.Reads instr.name ∨ (∃ piece ∈ pieces, piece.2.all.Early instr) ∨
      ∃ note bound body source rest, whole = .letTuple note [] bound body ∧
        pieces = [(bound, source), (body, rest)] ∧ source.last = instr := by
  have bound {symbol : Symbol} (own : symbol ∈ whole.binds) (named : instr.name = symbol.name) : False := by
    rw [named, fine symbol own] at temp
    cases temp
  cases composes with
  | strict _ same_length operands value =>
    rcases Run.early_mk early with has | ⟨block, own, _⟩
    · obtain ⟨one, mem, has⟩ := Code.exists_has has
      rcases Run.early_or_last has with inner | rfl
      · obtain ⟨part, piece⟩ := exists_mem_zip same_length mem
        exact .inr (.inl ⟨_, piece, inner⟩)
      · refine .inl (Run.reads_of_last ?_)
        rw [value, Value.operands, operands]
        exact mem_map_of_mem mem
    · rw [value] at own
      cases own
  | bound _ value =>
    rcases Run.early_mk early with has | ⟨block, own, _⟩
    · exact (Code.not_has_nil has).elim
    · rw [value] at own
      cases own
  | @cond _ _ yes no _ first second _ _ _ value =>
    rcases Run.early_mk early with has | ⟨block, own, inner⟩
    · rcases Run.early_or_last has with inner | rfl
      · exact .inr (.inl ⟨_, .head _, inner⟩)
      · refine .inl (Run.reads_of_last ?_)
        rw [value]
        exact mem_singleton_self _
    · rw [value, Value.blocks, mem_cons, mem_singleton] at own
      rcases own with rfl | rfl
      · exact .inr (.inl ⟨(yes, first), by simp, inner⟩)
      · exact .inr (.inl ⟨(no, second), by simp, inner⟩)
  | @letIn _ _ _ body _ rest named =>
    rcases Run.early_after early with has | inner
    · rcases Run.early_or_last has with inner | rfl
      · exact .inr (.inl ⟨_, .head _, inner⟩)
      · exact (bound (.head _) named).elim
    · exact .inr (.inl ⟨(body, rest), by simp, inner⟩)
  | @letRec _ _ _ _ _ after _ rest =>
    rcases Run.early_after early with has | inner
    · rcases has with there | inside
      · rw [mem_singleton.mp there] at bound
        exact (bound (.head _) rfl).elim
      · obtain ⟨block, own, inner⟩ := Code.inside_singleton.mp inside
        rw [Value.blocks, mem_singleton] at own
        rw [own] at inner
        exact .inr (.inl ⟨_, .head _, inner⟩)
    · exact .inr (.inl ⟨(after, rest), by simp, inner⟩)
  | @letTuple note binders term body source rest loads apart =>
    rcases Run.early_after early with has | inner
    · rcases Code.has_append.mp has with has | has
      · rcases Run.early_or_last has with inner | rfl
        · exact .inr (.inl ⟨_, .head _, inner⟩)
        · cases binders with
          | nil => exact .inr (.inr ⟨note, term, body, source, rest, rfl, rfl, rfl⟩)
          | cons _ _ =>
            obtain ⟨load, there, read⟩ := apart.exists_read
            refine .inl ⟨load, Code.mem_instrs ?_, read⟩
            rw [Run.all_after]
            exact mem_append_left _ (mem_append_right _ there)
      · obtain ⟨symbol, own, named⟩ := apart.exists_symbol has
        exact (bound own named).elim
    · exact .inr (.inl ⟨(body, rest), by simp, inner⟩)
  | apply same_length value =>
    rcases Run.early_mk early with has | ⟨block, own, _⟩
    · rcases Code.has_append.mp has with has | has
      · rcases Run.early_or_last has with inner | rfl
        · exact .inr (.inl ⟨_, .head _, inner⟩)
        · refine .inl (Run.reads_of_last ?_)
          rw [value]
          exact .head _
      · obtain ⟨one, mem, has⟩ := Code.exists_has has
        rcases Run.early_or_last has with inner | rfl
        · obtain ⟨part, piece⟩ := exists_mem_zip same_length mem
          exact .inr (.inl ⟨_, mem_cons_of_mem _ piece, inner⟩)
        · refine .inl (Run.reads_of_last ?_)
          rw [value]
          exact mem_cons_of_mem _ (mem_map_of_mem mem)
    · rw [value] at own
      cases own
  | @matchOption _ _ someArm noneArm _ source first second check content span span' test _ _ _ value =>
    rcases Run.early_mk early with has | ⟨block, own, inner⟩
    · rcases Code.has_append.mp has with has | has
      · rcases Run.early_or_last has with inner | rfl
        · exact .inr (.inl ⟨_, .head _, inner⟩)
        · refine .inl ⟨⟨check, test, span, .op (.isSome source.name)⟩, Code.mem_instrs ?_,
            mem_singleton_self _⟩
          simp [Run.all_mk]
      · rw [Code.has_op] at has
        refine .inl (Run.reads_of_last ?_)
        rw [value, has]
        exact mem_singleton_self _
    · rw [value, Value.blocks, mem_cons, mem_singleton] at own
      rcases own with rfl | rfl
      · -- The content of the option is bound before the arm itself.
        have early : (first.after [⟨content, _, span', .op (.unwrap source.name)⟩]).all.Early instr := inner
        rcases Run.early_after early with has | inner
        · rw [Code.has_op] at has
          exact (bound (.head _) (congrArg Instr.name has)).elim
        · exact .inr (.inl ⟨(someArm, first), by simp, inner⟩)
      · exact .inr (.inl ⟨(noneArm, second), by simp, inner⟩)
  | typed => exact .inr (.inl ⟨_, mem_singleton_self _, early⟩)

end Composes

theorem Run.IsCode.reads_or_ignored (code : run.IsCode label whole)
    (fine : ∀ symbol ∈ whole.names, isTemporary symbol.name = false) (temp : isTemporary instr.name = true)
    (early : run.all.Early instr) : run.all.Reads instr.name ∨ Ignored label instr whole run := by
  induction whole using Expr.part_induction generalizing run with
  | step whole ih =>
    have names (symbol : Symbol) : symbol ∈ whole.names ↔
        symbol ∈ whole.binds ∨ ∃ part ∈ whole.parts, symbol ∈ part.2.names := by
      rw [whole.names_perm.mem_iff, mem_append, mem_flatMap]
    obtain ⟨_, composes, codes⟩ := code.exists_pieces
    have bound_fine : ∀ symbol ∈ whole.binds, isTemporary symbol.name = false := fun symbol own =>
      fine symbol ((names symbol).mpr (.inl own))
    rcases composes.early_cases bound_fine temp early with read | ⟨piece, mem, inner⟩ | ignored
    · exact .inl read
    · obtain ⟨part, own, same⟩ := mem_map.mp (composes.mem_parts mem)
      have part_fine : ∀ symbol ∈ part.2.names, isTemporary symbol.name = false := fun symbol there =>
        fine symbol ((names symbol).mpr (.inr ⟨part, own, there⟩))
      rcases ih part own (same ▸ codes piece mem) part_fine inner with ⟨reader, there, read⟩ | ignored
      · exact .inl ⟨reader, composes.instrs_subset mem there, read⟩
      · exact .inr (.part composes codes mem (same ▸ ignored))
    · obtain ⟨_, bound, body, source, rest, rfl, rfl, last⟩ := ignored
      exact .inr (.here composes (codes (bound, source) (by simp)) (codes (body, rest) (by simp)) last)

end MiddleEnd
