import MiddleEnd.Proofs.Code.Closed

/-! What every pass leaves for the next one: code in single-assignment form, in which all that is read
was defined before, and a table with a type for every name of the code and for no other name. -/

namespace MiddleEnd

open List

variable {module : Module} {value : Value Block} {name : String}

/-! ### Single-assignment form -/

def Code.innerBlocks (code : Code) : List Block :=
  (instrs code).flatMap fun instr => instr.value.blocks

/-- A block in single-assignment form, its inner blocks included: no two instructions or parameters have
one name, what is read was defined before, and every block has a value. -/
structure Block.SingleAssignment (block : Block) : Prop where
  distinct : (Code.defs block.body).Nodup
  fits : Code.BlockInScope [] block
  ended : ∀ inner ∈ block :: Code.innerBlocks block.body, inner.Ended

theorem Block.blockInScope_eq (scope : List String) (block : Block) :
    Code.BlockInScope scope block = Code.InScope scope block.body := by
  cases block
  rfl

theorem Block.Ends.ended {block : Block} (ends : block.Ends) : block.Ended := by
  obtain ⟨front, last, body, _, plain⟩ := ends
  exact ⟨front, last, body, plain⟩

theorem Value.Plain.ended (plain : value.Plain) : ∀ block ∈ value.blocks, block.Ended := by
  cases value with
  | op _ => exact forall_mem_nil _
  | branch _ _ _ => simpa [blocks] using ⟨plain.1.ended, plain.2.ended⟩
  | function _ _ _ => simpa [blocks] using Block.Ends.ended plain

theorem Value.Lawful.ended (lawful : value.Lawful) : ∀ block ∈ value.blocks, block.Ended := by
  cases value with
  | op _ => exact forall_mem_nil _
  | branch _ _ _ => simpa [blocks] using ⟨lawful.1, lawful.2⟩
  | function _ _ _ => simpa [blocks, Lawful] using lawful

namespace Module

theorem Raw.singleAssignment (raw : module.Raw) : module.entry.SingleAssignment where
  distinct := raw.defs_nodup
  fits := Block.blockInScope_eq [] module.entry ▸ raw.fits
  ended block mem := by
    rcases mem_cons.mp mem with rfl | inside
    · exact raw.ends.ended
    · obtain ⟨instr, there, own⟩ := mem_flatMap.mp inside
      exact (raw.plain instr there).ended block own

theorem WellFormed.singleAssignment (formed : module.WellFormed) : module.entry.SingleAssignment where
  distinct := formed.defs_nodup
  fits := Block.blockInScope_eq [] module.entry ▸ formed.fits
  ended block mem := by
    rcases mem_cons.mp mem with rfl | inside
    · exact formed.ended
    · obtain ⟨instr, there, own⟩ := mem_flatMap.mp inside
      exact (formed.lawful instr there).ended block own

end Module

/-- An accepted program is lowered to code in single-assignment form, and forwarding keeps the form. -/
theorem Surface.lower_singleAssignment {program : Surface} (lexed : program.Lexed) {resolved : Resolved}
    {typed : Typed} {settings : Settings} (resolves : program.resolve = .ok resolved)
    (checks : resolved.check settings = .ok typed) :
    ∃ module, typed.lower = .ok module ∧ module.entry.SingleAssignment ∧
      module.forward.entry.SingleAssignment := by
  obtain ⟨module, lowered, raw⟩ := exists_lowered lexed resolves checks
  exact ⟨module, lowered, raw.singleAssignment, raw.wellFormed_forward.singleAssignment⟩

/-- `let rec pick choice = match choice with Some x -> let (x, y) = (x, 2) in (if x = y then x else y) |
None -> 0 in let result = pick (Some 1) in result`: a name is bound again, and copies are read in inner
blocks and at their ends. -/
def Surface.nestedChoice : Surface :=
  let name (text : String) : Ident := ⟨text, default, 0⟩
  let var (text : String) (order : Nat) : Expr Ident Mention TypeExpr Span :=
    .var default ⟨name text, order⟩
  let int (value : Int) : Expr Ident Mention TypeExpr Span := .lit default (.int value)
  { body :=
      .letRec default (name "pick") [⟨name "choice", none⟩] none
        (.matchOption default (var "choice" 0) ⟨name "x", none⟩
          (.letTuple default [⟨name "x", none⟩, ⟨name "y", none⟩] (.tuple default [var "x" 1, int 2])
            (.cond default (.binary default .equals (var "x" 2) (var "y" 3)) (var "x" 4) (var "y" 5)))
          (int 0))
        (.letIn default ⟨name "result", none⟩ (.apply default (var "pick" 6) [.some default (int 1)])
          (var "result" 7)) }

/-- Six of twenty-two instructions are taken out. -/
theorem Surface.lower_singleAssignment_nestedChoice : nestedChoice.Lexed ∧
    ∃ resolved typed module, nestedChoice.resolve = .ok resolved ∧
      resolved.check { seedBuiltins := false } = .ok typed ∧ typed.lower = .ok module ∧
      ((Code.instrs module.entry.body).length, (Code.instrs module.forward.entry.body).length) =
        (22, 16) ∧
      module.entry.SingleAssignment ∧ module.forward.entry.SingleAssignment := by
  have lexed : nestedChoice.Lexed := by decide +kernel
  obtain ⟨resolved, typed, resolves, checks, test⟩ :=
    exists_of_accepted nestedChoice { seedBuiltins := false } fun _ typed =>
      typed.lowersTo fun module => decide (((Code.instrs module.entry.body).length,
        (Code.instrs module.forward.entry.body).length) = (22, 16))
  obtain ⟨module, lowered, before, after⟩ := lower_singleAssignment lexed resolves checks
  rw [Typed.lowersTo_eq lowered, decide_eq_true_eq] at test
  exact ⟨lexed, resolved, typed, module, resolves, checks, lowered, test, before, after⟩

/-! ### Tables -/

theorem NameMap.mem_keys {α : Type} {map : NameMap α} : name ∈ map.keys ↔ map.contains name = true := by
  rw [keys, contains, find?, Option.isSome_iff_exists]
  constructor
  · intro mem
    obtain ⟨entry, there, rfl⟩ := mem_map.mp mem
    cases found : map.entries.lookup entry.1 with
    | some value => exact ⟨value, rfl⟩
    | none => exact absurd (lookup_eq_none_iff.mp found _ there) (by simp)
  · rintro ⟨value, found⟩
    exact mem_map_of_mem (mem_of_lookup found)

def Definition.defs (definition : Definition) : List String :=
  definition.name :: (definition.params ++ Code.defs definition.body.body)

def Converted.defs (program : Converted) : List String :=
  program.toplevel.entries.flatMap (fun entry => (Toplevel.definition entry).defs) ++
    Code.defs program.entry.body

/-- A table whose names are exactly the given ones. -/
def TypeTable.Covers (table : TypeTable) (names : List String) : Prop :=
  ∀ name, name ∈ table.keys ↔ name ∈ names

theorem Code.mem_defs_strip (captures : Captures) {code : Code} :
    name ∈ defs code ↔ name ∈ defs (strip captures code) ∨
      name ∈ (definitions code).flatMap fun definition => (definition.strip captures).defs := by
  induction code using Code.induction with
  | nil => simp [defs, strip, instrs, definitions]
  | op ih =>
    rw [defs_op, strip, defs_op, definitions, mem_cons, mem_cons, ih, or_assoc]
  | branch yes_ih no_ih ih =>
    simp only [defs_branch, strip, Block.strip, definitions, blockDefinitions, flatMap_append,
      mem_cons, mem_append, yes_ih, no_ih, ih]
    clear yes_ih no_ih ih
    tauto
  | @function id own span params label body recursive rest body_ih ih =>
    -- A closure leaves the name of its function in the block as well.
    have left : name = own ∨ name ∈ defs (strip captures rest) ↔ name = own ∨ name ∈ defs
        (strip captures (⟨id, own, span, .function params (.mk label body) recursive⟩ :: rest)) := by
      rw [strip]
      split
      · rw [defs_op, mem_cons, ← or_assoc, or_self]
      · rfl
    have taken : name ∈ (Definition.strip captures ⟨own, params, .mk label body⟩).defs ↔
        name = own ∨ name ∈ params ∨ name ∈ defs (strip captures body) := by
      rw [Definition.defs, mem_cons, mem_append]
      rfl
    simp only [defs_function, definitions, blockDefinitions, cons_append, flatMap_append,
      flatMap_cons, mem_cons, mem_append, body_ih, ih, taken]
    clear body_ih ih taken
    tauto

namespace Module

theorem Raw.covers (raw : module.Raw) : module.table.Covers (Code.defs module.entry.body) :=
  fun name => NameMap.mem_keys.trans (raw.table name)

theorem WellFormed.covers (formed : module.WellFormed) :
    module.table.Covers (Code.defs module.entry.body) :=
  fun name => NameMap.mem_keys.trans (formed.table name)

theorem WellFormed.mem_defs_converted (formed : module.WellFormed) :
    name ∈ module.converted.defs ↔ name ∈ Code.defs module.entry.body := by
  have entry : module.converted.entry.body = Code.strip module.entry.captures module.entry.body := by
    rw [(Block.convert_spec module.entry module.entry.captures).1, body_strip]
  rw [Code.mem_defs_strip module.entry.captures, Converted.defs, mem_append, mem_flatMap, entry,
    or_comm]
  refine or_congr_right ⟨?_, fun mem => ?_⟩
  · rintro ⟨entry, mem, inside⟩
    obtain ⟨definition, there, same⟩ := exists_definition (mem_sortBy.mpr mem)
    exact mem_flatMap.mpr ⟨definition, there, same ▸ inside⟩
  · obtain ⟨definition, mem, inside⟩ := mem_flatMap.mp mem
    obtain ⟨function, found, params, body⟩ := formed.find?_toplevel mem
    refine ⟨(definition.name, function), mem_of_lookup found, ?_⟩
    rwa [Toplevel.definition, params, body]

theorem WellFormed.covers_converted (formed : module.WellFormed) :
    module.table.Covers module.converted.defs :=
  fun name => (formed.covers name).trans formed.mem_defs_converted.symm

end Module

/-- After lowering, after forwarding and after closure conversion the table has a type for every name of
the code and for nothing else. -/
theorem Surface.table_exact {program : Surface} (lexed : program.Lexed) {resolved : Resolved}
    {typed : Typed} {settings : Settings} (resolves : program.resolve = .ok resolved)
    (checks : resolved.check settings = .ok typed) :
    ∃ module, typed.lower = .ok module ∧ module.table.Covers (Code.defs module.entry.body) ∧
      module.forward.table.Covers (Code.defs module.forward.entry.body) ∧
      module.forward.table.Covers module.forward.converted.defs := by
  obtain ⟨module, lowered, raw⟩ := exists_lowered lexed resolves checks
  have formed := raw.wellFormed_forward
  exact ⟨module, lowered, raw.covers, formed.covers, formed.covers_converted⟩

/-- Six entries leave the table with their instructions; a function that leaves nothing in its block
keeps its entry. -/
theorem Surface.table_exact_nestedChoice : nestedChoice.Lexed ∧
    ∃ resolved typed module, nestedChoice.resolve = .ok resolved ∧
      resolved.check { seedBuiltins := false } = .ok typed ∧ typed.lower = .ok module ∧
      (module.table.size, module.forward.table.size,
        (Code.instrs module.forward.converted.entry.body).length) = (23, 17, 3) ∧
      module.table.Covers (Code.defs module.entry.body) ∧
      module.forward.table.Covers (Code.defs module.forward.entry.body) ∧
      module.forward.table.Covers module.forward.converted.defs := by
  have lexed : nestedChoice.Lexed := by decide +kernel
  obtain ⟨resolved, typed, resolves, checks, test⟩ :=
    exists_of_accepted nestedChoice { seedBuiltins := false } fun _ typed =>
      typed.lowersTo fun module => decide ((module.table.size, module.forward.table.size,
        (Code.instrs module.forward.converted.entry.body).length) = (23, 17, 3))
  obtain ⟨module, lowered, before, between, after⟩ := table_exact lexed resolves checks
  rw [Typed.lowersTo_eq lowered, decide_eq_true_eq] at test
  exact ⟨lexed, resolved, typed, module, resolves, checks, lowered, test, before, between, after⟩

end MiddleEnd
