import MiddleEnd.Proofs.Code.Forward

/-! Modules after forwarding are well formed: in scope, in single-assignment form, and typed. -/

namespace MiddleEnd

open List

variable {α : Type} {value : α} {later : String} {removed : List Nat} {names scope : List String}
  {name : String} {code : Code} {instr : Instr Block} {module : Module}

namespace NameMap

theorem find?_foldl_of_not_mem (entries : List (String × α)) (map : NameMap α)
    (absent : name ∉ entries.map Prod.fst) :
    (entries.foldl (fun map entry => map.insert entry.1 entry.2) map).find? name = map.find? name := by
  induction entries generalizing map with
  | nil => rfl
  | cons _ _ ih =>
    rw [map_cons, mem_cons, not_or] at absent
    rw [foldl_cons, ih _ absent.2, find?_insert, if_neg absent.1]

theorem find?_foldl_of_mem (entries : List (String × α)) (map : NameMap α)
    (nodup : (entries.map Prod.fst).Nodup) (mem : (name, value) ∈ entries) :
    (entries.foldl (fun map entry => map.insert entry.1 entry.2) map).find? name = some value := by
  induction entries generalizing map with
  | nil => cases mem
  | cons _ _ ih =>
    rw [map_cons, nodup_cons] at nodup
    rw [foldl_cons]
    rcases mem_cons.mp mem with rfl | mem
    · rw [find?_foldl_of_not_mem _ _ nodup.1, find?_insert, if_pos rfl]
    · exact ih _ nodup.2 mem

theorem find?_ofList {entries : List (String × α)} (nodup : (entries.map Prod.fst).Nodup) :
    (ofList entries).find? name = some value ↔ (name, value) ∈ entries := by
  refine ⟨fun found => ?_, find?_foldl_of_mem entries empty nodup⟩
  by_cases present : name ∈ entries.map Prod.fst
  · obtain ⟨⟨_, _⟩, mem, rfl⟩ := mem_map.mp present
    have same := (find?_foldl_of_mem entries empty nodup mem).symm.trans found
    cases same
    exact mem
  · have absent := find?_foldl_of_not_mem entries empty present
    cases absent.symm.trans found

end NameMap

def Code.copies (code : Code) : NameMap Copy :=
  .ofList ((instrs code).filterMap fun instr => instr.copy?.map (instr.name, ·))

theorem Code.names_sublist (code : Code) : ((instrs code).map Instr.name).Sublist (defs code) := by
  rw [defs]
  induction instrs code with
  | nil => exact .slnil
  | cons _ _ ih =>
    rw [map_cons, flatMap_cons, Instr.defs, cons_append]
    exact .cons_cons _ (ih.trans (sublist_append_right _ _))

theorem Code.mem_copies (nodup : (defs code).Nodup) {copy : Copy} :
    (copies code).find? name = some copy ↔
      ∃ instr ∈ instrs code, instr.name = name ∧ instr.copy? = some copy := by
  have keys : (((instrs code).filterMap fun instr => instr.copy?.map (instr.name, ·)).map
      Prod.fst).Sublist ((instrs code).map Instr.name) := by
    induction instrs code with
    | nil => exact .slnil
    | cons instr _ ih =>
      rw [filterMap_cons]
      cases instr.copy? with
      | none => exact .cons _ ih
      | some _ => exact .cons_cons _ ih
  rw [copies, NameMap.find?_ofList ((keys.trans (names_sublist code)).nodup nodup)]
  simp only [mem_filterMap, Option.map_eq_some_iff, Prod.mk.injEq]
  constructor
  · rintro ⟨instr, mem, copy, here, rfl, rfl⟩
    exact ⟨instr, mem, rfl, here⟩
  · rintro ⟨instr, mem, rfl, here⟩
    exact ⟨instr, mem, copy, here, rfl, rfl⟩

theorem Code.eq_of_name (nodup : (defs code).Nodup) {instr' : Instr Block}
    (mem : instr ∈ instrs code) (mem' : instr' ∈ instrs code) (same : instr.name = instr'.name) :
    instr = instr' :=
  inj_on_of_nodup_map ((names_sublist code).nodup nodup) mem mem' same

theorem Code.name_ne_param (nodup : (defs code).Nodup) {other : Instr Block}
    (mem : instr ∈ instrs code) (there : other ∈ instrs code) {param : String}
    (own : param ∈ instr.value.params) : other.name ≠ param := by
  obtain ⟨_, _, split⟩ := append_of_mem mem
  rw [defs, split, flatMap_append, flatMap_cons, nodup_append, nodup_append] at nodup
  obtain ⟨_, ⟨own_nodup, _, back_apart⟩, front_apart⟩ := nodup
  have param_defined : param ∈ instr.defs := .tail _ own
  rintro rfl
  rw [split, mem_append, mem_cons] at there
  rcases there with there | rfl | there
  · exact front_apart _ (mem_flatMap.mpr ⟨other, there, .head _⟩) _
      (mem_append_left _ param_defined) rfl
  · exact (nodup_cons.mp own_nodup).1 own
  · exact back_apart _ param_defined _ (mem_flatMap.mpr ⟨other, there, .head _⟩) rfl

theorem Module.Raw.copies (raw : module.Raw) :
    Copies.Of (Code.copies module.entry.body) module.entry.body where
  copy instr mem := by
    apply Option.ext
    intro _
    rw [Code.mem_copies raw.defs_nodup]
    constructor
    · rintro ⟨other, there, same, here⟩
      rwa [← Code.eq_of_name raw.defs_nodup there mem same]
    · exact fun here => ⟨instr, mem, rfl, here⟩
  param instr mem name param := by
    rw [Option.eq_none_iff_forall_ne_some]
    intro _ found
    obtain ⟨other, there, same, _⟩ := (Code.mem_copies raw.defs_nodup).mp found
    exact Code.name_ne_param raw.defs_nodup mem there param same
  origin here := (Code.mem_copies raw.defs_nodup).mp here
  ids_nodup := raw.ids_nodup
  plain := raw.plain

def Precedes (names : List String) (name later : String) : Prop :=
  ∃ first second, names = first ++ later :: second ∧ name ∈ first

theorem Precedes.append (precedes : Precedes names name later) (more : List String) :
    Precedes (names ++ more) name later := by
  obtain ⟨first, second, rfl, before⟩ := precedes
  exact ⟨first, second ++ more, by simp, before⟩

theorem Precedes.idxOf_lt (precedes : Precedes names name later) (nodup : names.Nodup) :
    names.idxOf name < names.idxOf later := by
  obtain ⟨first, _, rfl, before⟩ := precedes
  have absent : later ∉ first := fun again =>
    (nodup_append.mp nodup).2.2 _ again _ (.head _) rfl
  rw [idxOf_append_of_mem before, idxOf_append_of_notMem absent]
  have early := idxOf_lt_length_of_mem before
  omega

theorem Code.InScope.precedes {front : List String} (fits : InScope scope code) (around : scope ⊆ front)
    (mem : instr ∈ instrs code) (read : name ∈ instr.value.operands) :
    Precedes (front ++ defs code) name instr.name := by
  induction code using Code.induction generalizing scope front with
  | nil => cases mem
  | @op _ own _ _ rest ih =>
    rw [defs_op]
    rcases mem_cons.mp mem with rfl | mem
    · exact ⟨front, defs rest, rfl, around (fits.1 name read)⟩
    · have grown : own :: scope ⊆ front ++ [own] := by grind
      simpa using ih fits.2 grown mem
  | @branch _ own _ test _ yes _ no rest yes_ih no_ih ih =>
    obtain ⟨test_fits, yes_fits, no_fits, fits⟩ := fits
    rw [defs_branch]
    simp only [instrs, blockInstrs, mem_cons, mem_append] at mem
    rcases mem with rfl | (mem | mem) | mem
    · obtain rfl : name = test := by simpa [Value.operands] using read
      exact ⟨front, _, rfl, around test_fits⟩
    · have grown : scope ⊆ front ++ [own] := by grind
      simpa using (yes_ih yes_fits grown mem).append (defs no ++ defs rest)
    · have grown : scope ⊆ front ++ own :: defs yes := by grind
      simpa using (no_ih no_fits grown mem).append (defs rest)
    · have grown : own :: scope ⊆ front ++ own :: (defs yes ++ defs no) := by grind
      simpa using ih fits grown mem
  | @function _ own _ params _ body _ rest body_ih ih =>
    rw [defs_function]
    simp only [instrs, blockInstrs, mem_cons, mem_append] at mem
    rcases mem with rfl | mem | mem
    · cases read
    · have grown : own :: params ++ scope ⊆ front ++ own :: params := by grind
      simpa using (body_ih fits.1 grown mem).append (defs rest)
    · have grown : own :: scope ⊆ front ++ own :: params ++ defs body := by grind
      simpa using ih fits.2 grown mem

def Copies.Acyclic (copies : NameMap Copy) : Prop :=
  ∃ rank : String → Nat, ∀ name copy, copies.find? name = some copy → copy.isExternal = false →
    rank copy.target < rank name

theorem Module.Raw.acyclic (raw : module.Raw) : Copies.Acyclic (Code.copies module.entry.body) := by
  refine ⟨fun name => (Code.defs module.entry.body).idxOf name, fun name copy found inside => ?_⟩
  obtain ⟨instr, mem, rfl, here⟩ := (Code.mem_copies raw.defs_nodup).mp found
  have read : copy.target ∈ instr.value.operands := by
    unfold Instr.copy? at here
    split at here
    · next shape =>
      cases here
      simp [shape, Value.operands, Op.operands]
    · cases here
      cases inside
    · cases here
  exact (raw.fits.precedes (nil_subset []) mem read).idxOf_lt raw.defs_nodup

def Block.Ended (block : Block) : Prop :=
  ∃ front last, block.body = front ++ [last] ∧ last.value.isFunction = false

/-- Instructions before closure conversion. -/
def Value.Lawful : Value Block → Prop
  | .op (.call kind _ _) => kind ≠ .closure
  | .op (.closure _ _) => False
  | .op _ => True
  | .branch _ yes no => yes.Ended ∧ no.Ended
  | .function _ body _ => body.Ended

structure Module.WellFormed (module : Module) : Prop where
  fits : Code.InScope [] module.entry.body
  defs_nodup : (Code.defs module.entry.body).Nodup
  lawful : ∀ instr ∈ Code.instrs module.entry.body, instr.value.Lawful
  ended : module.entry.Ended
  table (name : String) : module.table.contains name = true ↔ name ∈ Code.defs module.entry.body

def Value.without (removed : List Nat) : Value Block → Value Block
  | op here => .op here
  | branch test yes no => .branch test (yes.without removed) (no.without removed)
  | function params body recursive => .function params (body.without removed) recursive

@[simp] theorem Value.isFunction_without (removed : List Nat) (value : Value Block) :
    (value.without removed).isFunction = value.isFunction := by
  cases value <;> rfl

def Instr.without (removed : List Nat) (instr : Instr Block) : Instr Block :=
  { instr with value := instr.value.without removed }

theorem Instr.blocks_forward (copies : NameMap Copy) (removed : List Nat) (instr : Instr Block) :
    ((instr.redirect copies).without removed).value.blocks =
      instr.value.blocks.map fun block => (block.redirect copies).without removed := by
  obtain ⟨id, _, _, value⟩ := instr
  cases value <;> rfl

theorem Block.body_forward (copies : NameMap Copy) (removed : List Nat) (block : Block) :
    ((block.redirect copies).without removed).body = Code.without removed (Code.redirect copies block.body) := by
  obtain ⟨_, body⟩ := block
  rfl

namespace Code

variable {copies : NameMap Copy}

theorem without_eq (removed : List Nat) (code : Code) :
    without removed code =
      (code.filter fun instr => !removed.contains instr.id).map (Instr.without removed) := by
  induction code with
  | nil => rfl
  | cons instr _ ih =>
    obtain ⟨id, _, _, value⟩ := instr
    cases value <;> rw [without, ih, filter_cons] <;>
      cases removed.contains id <;> simp [Instr.without, Value.without]

theorem without_redirect_eq (copies : NameMap Copy) (removed : List Nat) (code : Code) :
    without removed (redirect copies code) = (code.filter fun instr => !removed.contains instr.id).map
      fun instr => (instr.redirect copies).without removed := by
  rewrite [without_eq, redirect_eq, filter_map, List.map_map]
  rfl

theorem without_redirect_append {front back : Code} (present : instr.id ∉ removed)
    (gone : ∀ other ∈ back, other.id ∈ removed) :
    without removed (redirect copies (front ++ instr :: back)) =
      without removed (redirect copies front) ++ [(instr.redirect copies).without removed] := by
  have nothing : back.filter (fun instr => !removed.contains instr.id) = [] := by
    simpa using gone
  simp only [without_redirect_eq, filter_append, filter_cons, nothing]
  simp [present]

theorem Ending.ended {block : Block} (ending : Ending removed block.body) :
    ((block.redirect copies).without removed).Ended := by
  obtain ⟨_, body⟩ := block
  obtain ⟨front, instr, _, rfl, present, plain, gone, _⟩ := ending
  refine ⟨without removed (redirect copies front), (instr.redirect copies).without removed,
    without_redirect_append present gone, ?_⟩
  simpa [Instr.without] using plain

end Code

structure Copies.Removal (copies : NameMap Copy) (whole : Code) (removed : List Nat)
    (gone : List String) : Prop where
  of : Copies.Of copies whole
  one_role : OneRole (Code.uses whole)
  numbered : ∀ instr ∈ Code.instrs whole, instr.id ∈ removed ↔ instr.name ∈ gone
  temporary : ∀ name ∈ gone, isTemporary name = true
  copy : ∀ name ∈ gone, ∃ copy, copies.find? name = some copy ∧
    (copy.isExternal = true → (name, .callee) ∈ Code.uses whole)

namespace Copies.Removal

variable {copies : NameMap Copy} {whole : Code} {gone : List String} {scope' : List String}

theorem kept (removal : Removal copies whole removed gone) (inside : instr ∈ Code.instrs whole)
    (plain : instr.copy? = none) : instr.id ∉ removed := by
  intro taken
  obtain ⟨copy, here, _⟩ := removal.copy _ ((removal.numbered instr inside).mp taken)
  rw [removal.of.copy instr inside, plain] at here
  cases here

theorem target_not_gone (removal : Removal copies whole removed gone) (closed : Closed copies scope)
    (mem : name ∈ scope) (reason : (name, .value) ∈ Code.uses whole ∨ external? copies name = none) :
    target copies name ∉ gone := by
  intro taken
  have temp := removal.temporary _ taken
  obtain ⟨copy, here, called⟩ := removal.copy _ taken
  cases found : copies.find? name with
  | none =>
    simp only [target, found] at here
    cases here
  | some own =>
    cases outside : own.isExternal with
    | false =>
      simp only [target, found, outside] at temp
      have clean := (closed name mem own found outside).2
      rw [if_neg Bool.false_ne_true, clean] at temp
      cases temp
    | true =>
      simp only [target, found, outside, if_true] at here temp called
      cases here
      rcases reason with read | no_chain
      · have same := removal.one_role name .value .callee temp read (called outside)
        cases same
      · rw [external?_of_external found outside] at no_chain
        cases no_chain

theorem mem_operands_callee {op : Op} {operand : String}
    (read : operand ∈ (callee copies op).1.operands) :
    operand ∈ op.values ∨ external? copies operand = none := by
  cases op with
  | call kind _ _ =>
    by_cases external : kind = .external
    · simp only [callee, external, if_true, Op.operands] at read
      exact .inl read
    · simp only [callee, external, if_false] at read
      split at read
      · simp only [Op.operands, if_true] at read
        exact .inl read
      · next no_chain =>
        simp only [Op.operands, external, if_false, mem_cons] at read
        rcases read with rfl | read
        · exact .inr no_chain
        · exact .inl read
  | _ => exact .inl read

section

variable (removal : Removal copies whole removed gone)
include removal

theorem operand_survives (closed : Closed copies scope)
    {id : Nat} {span : Span} {op : Op} (inside : ⟨id, name, span, .op op⟩ ∈ Code.instrs whole)
    (fits : ∀ operand ∈ op.operands, operand ∈ scope) :
    ∀ operand ∈ (op.redirect copies).operands, operand ∈ scope ∧ operand ∉ gone := by
  intro operand read
  rcases op.copy_or_original with ⟨target, rfl⟩ | ⟨target, rfl⟩ | original
  · refine ⟨fits operand read, fun taken => ?_⟩
    have clean : isTemporary target = false := removal.of.plain _ inside
    rw [mem_singleton.mp read] at taken
    rw [removal.temporary _ taken] at clean
    cases clean
  · cases read
  · rw [original.redirect_eq, Op.operands_mapOperands] at read
    obtain ⟨old, there, rfl⟩ := mem_map.mp read
    have visible := fits old ((Forward.callee_spec closed fits).1 old there)
    refine ⟨target_mem closed visible, removal.target_not_gone closed visible ?_⟩
    refine (mem_operands_callee there).imp_left fun value => ?_
    refine mem_flatMap.mpr ⟨_, inside, ?_⟩
    exact mem_append_right _ (mem_map_of_mem value)

theorem inScope (within : Code.Within whole copies scope code)
    (seen : ∀ name ∈ scope, name ∉ gone → name ∈ scope') :
    Code.InScope scope' (Code.without removed (Code.redirect copies code)) := by
  have extend {name : String} {scope scope' : List String}
      (seen : ∀ name ∈ scope, name ∉ gone → name ∈ scope') :
      ∀ other ∈ name :: scope, other ∉ gone → other ∈ name :: scope' := by
    intro other mem stays
    exact (mem_cons.mp mem).elim (· ▸ mem_cons_self) fun mem => .tail _ (seen other mem stays)
  induction code using Code.induction generalizing scope scope' with
  | nil => exact trivial
  | @op _ _ _ _ rest ih =>
    have inside := within.inside _ (Code.mem_instrs (.head _))
    have rest_within := within.rest removal.of
    rw [Code.redirect, Code.without]
    split
    · next taken =>
      refine ih rest_within fun other mem stays => ?_
      rcases mem_cons.mp mem with rfl | mem
      · exact absurd ((removal.numbered _ inside).mp (by simpa using taken)) stays
      · exact seen other mem stays
    · refine ⟨fun operand read => ?_, ih rest_within (extend seen)⟩
      obtain ⟨visible, stays⟩ := removal.operand_survives within.closed inside within.fits.1 operand read
      exact seen operand visible stays
  | @branch id _ _ test _ _ _ _ rest yes_ih no_ih ih =>
    have inside := within.inside _ (Code.mem_instrs (.head _))
    have stays : removed.contains id = false := by simpa using removal.kept inside rfl
    simp only [Code.redirect, Block.redirect, Code.without, Block.without, stays, Bool.false_eq_true,
      if_false]
    refine ⟨?_, yes_ih (within.arm (.inl rfl)) seen, no_ih (within.arm (.inr rfl)) seen,
      ih (within.rest removal.of) (extend seen)⟩
    have read : (test, .value) ∈ Code.uses whole :=
      mem_flatMap.mpr ⟨_, inside, .head _⟩
    exact seen _ (target_mem within.closed within.fits.1)
      (removal.target_not_gone within.closed within.fits.1 (.inl read))
  | @function id _ _ _ _ body _ rest body_ih ih =>
    have inside := within.inside _ (Code.mem_instrs (.head _))
    have stays : removed.contains id = false := by simpa using removal.kept inside rfl
    simp only [Code.redirect, Block.redirect, Code.without, Block.without, stays, Bool.false_eq_true,
      if_false]
    refine ⟨body_ih (within.body removal.of) fun other mem stays => ?_,
      ih (within.rest removal.of) (extend seen)⟩
    exact (mem_append.mp mem).elim (mem_append_left _)
      fun around => mem_append_right _ (seen other around stays)

theorem param_stays (inside : instr ∈ Code.instrs whole) :
    ∀ name ∈ instr.value.params, gone.contains name = false := by
  intro name own
  rw [contains_eq_mem, decide_eq_false_iff_not]
  intro taken
  obtain ⟨copy, here, _⟩ := removal.copy name taken
  rw [removal.of.param instr inside name own] at here
  cases here

theorem isOp (inside : instr ∈ Code.instrs whole)
    (taken : instr.id ∈ removed) : ∃ op, instr.value = .op op := by
  obtain ⟨id, _, _, value⟩ := instr
  cases value with
  | op op => exact ⟨op, rfl⟩
  | branch => exact absurd taken (removal.kept inside rfl)
  | function => exact absurd taken (removal.kept inside rfl)

theorem instrs_eq (inside : ∀ instr ∈ Code.instrs code, instr ∈ Code.instrs whole) :
    Code.instrs (Code.without removed (Code.redirect copies code)) =
      ((Code.instrs code).filter fun instr => !removed.contains instr.id).map
        fun instr => (instr.redirect copies).without removed := by
  induction code using Code.nested_induction with
  | nil => rfl
  | cons instr _ blocks_ih ih =>
    have own := inside instr (Code.mem_instrs (.head _))
    rw [Code.instrs_cons] at inside
    have rest_eq := ih fun other mem =>
      inside other (.tail _ (mem_append_right _ mem))
    rw [Code.without_redirect_eq] at rest_eq ⊢
    rw [Code.instrs_cons, filter_cons, filter_cons, filter_append]
    cases taken : removed.contains instr.id with
    | true =>
      obtain ⟨op, value⟩ := removal.isOp own (by simpa using taken)
      rw [value, Value.blocks]
      simpa using rest_eq
    | false =>
      have blocks_eq : (instr.value.blocks.flatMap Code.blockInstrs).filter
          (fun instr => !removed.contains instr.id) = instr.value.blocks.flatMap fun block =>
              (Code.blockInstrs block).filter fun instr => !removed.contains instr.id := by
        rw [filter_flatMap]
      simp only [Bool.not_false, if_true, map_cons, Code.instrs_cons, map_append, rest_eq, blocks_eq,
        Instr.blocks_forward, flatMap_map, map_flatMap]
      congr 2
      refine flatMap_congr fun block mem => ?_
      rw [Code.blockInstrs_eq, Code.blockInstrs_eq, Block.body_forward]
      refine blocks_ih block mem fun other _ => inside other (mem_cons_of_mem _
        (mem_append_left _ (mem_flatMap.mpr ⟨block, mem, ?_⟩)))
      rwa [Code.blockInstrs_eq]

theorem exists_origin (mem : instr ∈ Code.instrs (Code.without removed (Code.redirect copies whole))) :
    ∃ origin ∈ Code.instrs whole, instr = (origin.redirect copies).without removed := by
  rw [removal.instrs_eq fun _ => id] at mem
  obtain ⟨origin, there, rfl⟩ := mem_map.mp mem
  exact ⟨origin, (mem_filter.mp there).1, rfl⟩

theorem flatMap_eq {before after : Instr Block → List α}
    (left : ∀ instr ∈ Code.instrs whole, instr.id ∉ removed →
      after ((instr.redirect copies).without removed) = before instr)
    (taken : ∀ instr ∈ Code.instrs whole, instr.id ∈ removed → before instr = []) :
    (Code.instrs (Code.without removed (Code.redirect copies whole))).flatMap after =
      (Code.instrs whole).flatMap before := by
  rw [removal.instrs_eq fun _ => id]
  generalize Code.instrs whole = instrs at left taken
  induction instrs with
  | nil => rfl
  | cons instr _ ih =>
    obtain ⟨first_left, left⟩ := forall_mem_cons.mp left
    obtain ⟨first_taken, taken⟩ := forall_mem_cons.mp taken
    rw [filter_cons, flatMap_cons, ← ih left taken]
    by_cases gone : instr.id ∈ removed
    · simp [gone, first_taken gone]
    · simp [gone, first_left gone]

theorem defs_eq :
    Code.defs (Code.without removed (Code.redirect copies whole)) =
      (Code.defs whole).filter fun name => !gone.contains name := by
  rw [Code.defs, Code.defs, filter_flatMap]
  refine removal.flatMap_eq (fun instr inside stays => ?_) fun instr inside taken => ?_
  · have same : ((instr.redirect copies).without removed).defs = instr.defs := by
      obtain ⟨id, name, _, value⟩ := instr
      cases value <;> rfl
    rw [same, eq_comm, filter_eq_self]
    refine forall_mem_cons.mpr ⟨?_, fun param own => ?_⟩
    · simpa [removal.numbered instr inside] using stays
    · rw [removal.param_stays inside param own, Bool.not_false]
  · obtain ⟨op, value⟩ := removal.isOp inside taken
    simpa [Instr.defs, value, Value.params] using (removal.numbered instr inside).mp taken

end

end Copies.Removal

theorem Op.lawful_redirect {copies : NameMap Copy} {op : Op} (plain : Value.Plain (.op op)) :
    Value.Lawful (.op (op.redirect copies)) := by
  cases op with
  | call kind callee _ =>
    have direct : kind = .direct := plain
    subst direct
    simp only [Op.redirect, Copies.callee, reduceCtorEq, if_false]
    split <;> simp [Op.mapOperands, Value.Lawful]
  | closure => exact plain.elim
  | _ => trivial

theorem Value.lawful_forward {copies : NameMap Copy} {value : Value Block} (plain : value.Plain)
    (endings : ∀ block ∈ value.blocks, Code.Trimmed removed block.body) :
    ((value.redirect copies).without removed).Lawful := by
  cases value with
  | op _ => exact Op.lawful_redirect plain
  | branch _ yes no =>
    exact ⟨(endings yes (by simp [Value.blocks])).ending.ended,
      (endings no (by simp [Value.blocks])).ending.ended⟩
  | function _ body _ => exact (endings body (by simp [Value.blocks])).ending.ended

structure Module.Forwards (module : Module) (removed : List Nat) (gone : List String) : Prop where
  removal : Copies.Removal (Code.copies module.entry.body) module.entry.body removed gone
  endings : Forward.Endings removed module.entry.body
  trimmed : Code.Trimmed removed module.entry.body
  drained : Drained (Code.copies module.entry.body) (Code.uses module.entry.body) removed
  entry : module.forward.entry =
    (module.entry.redirect (Code.copies module.entry.body)).without removed
  table (name : String) : module.forward.table.contains name = true ↔
    module.table.contains name = true ∧ name ∉ gone
  types : ∀ name ∉ gone, module.forward.table.find? name = module.table.find? name

theorem Module.Raw.within (raw : module.Raw) :
    Code.Within module.entry.body (Code.copies module.entry.body) [] module.entry.body :=
  ⟨fun _ => id, raw.fits, raw.one_role.mono (subset_append_left _ _), raw.defs_nodup, nofun, nofun⟩

theorem Module.Raw.exists_forwards (raw : module.Raw) :
    ∃ removed gone, module.Forwards removed gone := by
  obtain ⟨⟨label, body⟩, table⟩ := module
  let start : Forwarding := { table }
  have of : Copies.Of (Code.copies body) body := raw.copies
  have within : Code.Within body (Code.copies body) [] body := raw.within
  have knows : start.Knows (Code.copies body) [] := ⟨nofun, nofun⟩
  have present : ∀ instr ∈ Code.instrs body, instr.id ∉ start.removed := fun _ _ => nofun
  obtain ⟨redirected, ⟨_, ⟨dropped, drops, each⟩, drained⟩, endings, trimmed⟩ :=
    Forward.block_spec of (Forward.code_spec of body) within knows present raw.ends raw.one_role
  generalize ran : (Forward.block (.mk label body)).run start = outcome at *
  obtain ⟨entry, stop⟩ := outcome
  dsimp only at redirected drops drained endings trimmed
  subst redirected
  have removal : Copies.Removal (Code.copies body) body stop.removed (dropped.map Prod.snd) := by
    refine ⟨of, within.one_role, fun instr mem => ?_, fun name mem => ?_, fun name mem => ?_⟩
    · rw [drops.removed, append_nil]
      constructor
      · intro taken
        obtain ⟨drop, there, same⟩ := mem_map.mp taken
        exact mem_map.mpr ⟨drop, there, ((each drop there).name_eq of mem same.symm).symm⟩
      · intro taken
        obtain ⟨drop, there, same⟩ := mem_map.mp taken
        obtain ⟨_, copy, _, here, numbered, _⟩ := each drop there
        rw [same, of.copy instr mem] at here
        exact mem_map.mpr ⟨drop, there, numbered.symm.trans (Instr.id_copy? here)⟩
    · obtain ⟨drop, there, rfl⟩ := mem_map.mp mem
      exact (each drop there).1
    · obtain ⟨drop, there, rfl⟩ := mem_map.mp mem
      obtain ⟨_, copy, role, here, _, use, reason⟩ := each drop there
      refine ⟨copy, here, fun outside => ?_⟩
      rcases reason with rfl | inside
      · exact (mem_append.mp use).resolve_right (by simp)
      · rw [inside] at outside
        cases outside
  have result : Module.forward { entry := .mk label body, table } =
      { entry := .mk label (Code.without stop.removed (Code.redirect (Code.copies body) body))
        table := stop.table } := by
    simp only [Module.forward, start] at ran ⊢
    rw [ran]
    rfl
  refine ⟨stop.removed, dropped.map Prod.snd, removal, endings, trimmed, fun name role use =>
    drained name role (mem_append_left _ use), ?_, ?_, ?_⟩
  · rw [result]
    rfl
  · rw [result]
    exact drops.table
  · rw [result]
    exact drops.types

theorem Module.Raw.wellFormed_forward (raw : module.Raw) : module.forward.WellFormed := by
  obtain ⟨removed, gone, removal, endings, trimmed, -, entry, table, -⟩ := raw.exists_forwards
  obtain ⟨⟨label, body⟩, types⟩ := module
  have body_eq : (Module.forward ⟨.mk label body, types⟩).entry.body =
      Code.without removed (Code.redirect (Code.copies body) body) := by
    rw [entry]
    rfl
  have defs : Code.defs (Code.without removed (Code.redirect (Code.copies body) body)) =
      (Code.defs body).filter fun name => !gone.contains name := removal.defs_eq
  constructor
  · rw [body_eq]
    exact removal.inScope raw.within nofun
  · rw [body_eq, defs]
    exact raw.defs_nodup.filter _
  · intro instr mem
    rw [body_eq] at mem
    obtain ⟨origin, there, rfl⟩ := removal.exists_origin mem
    exact Value.lawful_forward (raw.plain origin there) (endings origin there)
  · rw [entry]
    exact Code.Ending.ended trimmed.ending
  · intro name
    rw [body_eq, defs, table, mem_filter]
    exact and_congr (raw.table name) (by simp)

end MiddleEnd
