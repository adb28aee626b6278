import MiddleEnd.Code.Verify
import MiddleEnd.Proofs.Code.Capture

/-! What closure conversion makes of a well-formed module can be printed, and passes the checks that
code generation relies on. -/

namespace MiddleEnd

open List

variable {α β : Type} {table : TypeTable} {captures : Captures} {op : Op} {indent : Nat} {name : String}
  {label : String} {code : Code} {block : Block} {entries : List (String × Toplevel)}
  {instr : Instr Block}

abbrev Succeeds {ε α : Type} (outcome : Except ε α) : Prop :=
  Yields (fun _ => False) outcome fun _ => True

theorem Succeeds.bind {ε : Type} {outcome : Except ε α} {rest : α → Except ε β}
    (first : Succeeds outcome) (second : ∀ value, Succeeds (rest value)) :
    Succeeds (outcome >>= rest) :=
  Yields.bind first fun value _ => second value

section Printing

end Printing

theorem Captures.callKind_ne_external (captures : Captures) (callee : String) :
    captures.callKind callee ≠ .external := by
  unfold callKind
  split
  · simp
  · split <;> simp

namespace Verify

structure Ready (whole : Code) (captures : Captures) (program : Converted) (table : TypeTable) :
    Prop where
  exact : captures.Exact whole
  closures : program.closures = captures.closures
  toplevel (name : String) : program.toplevel.contains name = true ↔
    name ∈ (Code.definitions whole).map Definition.name
  lawful : ∀ instr ∈ Code.instrs whole, instr.value.Lawful
  defined : ∀ name ∈ Code.defs whole, table.contains name = true
  read (name : String) : Code.Reads whole name → table.contains name = true

variable {whole : Code} {program : Converted}

section

variable (ready : Ready whole captures program table)
include ready

end

end Verify

theorem NameMap.mem_of_mem_ofList {entries : List (String × α)} {entry : String × α}
    (mem : entry ∈ (ofList entries).entries) : entry ∈ entries := by
  suffices grown : ∀ map : NameMap α,
      entry ∈ (entries.foldl (fun map entry => map.insert entry.1 entry.2) map).entries →
        entry ∈ map.entries ∨ entry ∈ entries from (grown empty mem).resolve_left not_mem_nil
  clear mem
  induction entries with
  | nil => exact fun map mem => .inl mem
  | cons _ _ ih =>
    intro _ mem
    rcases ih _ mem with early | late
    · simp only [insert, erase, mem_cons, mem_filter] at early
      rcases early with rfl | ⟨early, _⟩
      · exact .inr (.head _)
      · exact .inl early
    · exact .inr (.tail _ late)

theorem Code.count_definitions_le (name : String) (code : Code) :
    ((definitions code).map Definition.name).count name ≤ (defs code).count name := by
  induction code using Code.induction with
  | nil => exact Nat.le_refl _
  | op ih =>
    rw [definitions, defs_op, count_cons]
    omega
  | branch yes_ih no_ih ih =>
    simp only [definitions, blockDefinitions, defs_branch, map_append, count_append, count_cons]
    omega
  | function body_ih ih =>
    simp only [definitions, blockDefinitions, defs_function, map_append, map_cons,
      count_append, count_cons]
    omega

namespace Module

variable {module : Module}

section

variable (formed : module.WellFormed)
include formed

theorem WellFormed.names_nodup : ((Code.definitions module.entry.body).map Definition.name).Nodup := by
  rw [nodup_iff_count_le_one]
  intro name
  calc ((Code.definitions module.entry.body).map Definition.name).count name
      ≤ (Code.defs module.entry.body).count name := Code.count_definitions_le name _
    _ ≤ 1 := nodup_iff_count_le_one.mp formed.defs_nodup name

theorem WellFormed.exact : module.entry.captures.Exact module.entry.body :=
  Block.exact_captures module.entry formed.names_nodup

theorem WellFormed.contains_of_reads (read : Code.Reads module.entry.body name) :
    module.table.contains name = true := by
  obtain ⟨instr, mem, operand⟩ := read
  have used {role : Role} (use : (name, role) ∈ instr.value.uses) : module.table.contains name = true := by
    have there : (name, role) ∈ Code.uses module.entry.body := mem_flatMap.mpr ⟨instr, mem, use⟩
    rcases formed.fits.mem_of_use there with outside | defined
    · cases outside
    · exact (formed.table name).mpr defined
  rcases Value.exists_role operand with use | use
  · exact used use
  · exact used use

theorem WellFormed.contains_of_mem (mem : instr ∈ Code.instrs module.entry.body) :
    module.table.contains instr.name = true :=
  (formed.table instr.name).mpr (mem_flatMap.mpr ⟨instr, mem, .head _⟩)

end

/-- The module with its functions at the top level. -/
abbrev converted (module : Module) : Converted := module.entry.convert module.entry.captures

theorem exists_entries (module : Module) : ∃ entries, module.converted.toplevel = .ofList entries ∧
    entries.map Toplevel.definition =
      (Code.definitions module.entry.body).map (Definition.strip module.entry.captures) ∧
    entries.map Prod.fst = (Code.definitions module.entry.body).map Definition.name := by
  obtain ⟨entries, made, defined⟩ := (Block.convert_spec module.entry module.entry.captures).2.2
  rw [show Code.blockDefinitions module.entry = Code.definitions module.entry.body by
    cases module.entry; rfl] at defined
  refine ⟨entries, made, defined, ?_⟩
  calc entries.map Prod.fst = (entries.map Toplevel.definition).map Definition.name := by
        rw [List.map_map]; rfl
    _ = (Code.definitions module.entry.body).map Definition.name := by
        rw [defined, List.map_map]; rfl

theorem contains_toplevel (module : Module) (name : String) :
    module.converted.toplevel.contains name = true ↔
      name ∈ (Code.definitions module.entry.body).map Definition.name := by
  obtain ⟨entries, made, -, names⟩ := module.exists_entries
  rw [made, NameMap.contains_ofList, names]

theorem exists_definition {entry : String × Toplevel}
    (mem : entry ∈ module.converted.toplevel.sorted) :
    ∃ definition ∈ Code.definitions module.entry.body,
      Toplevel.definition entry = definition.strip module.entry.captures := by
  obtain ⟨entries, made, defined, -⟩ := module.exists_entries
  rw [made] at mem
  have there := NameMap.mem_of_mem_ofList (mem_sortBy.mp mem)
  have image : Toplevel.definition entry ∈ entries.map Toplevel.definition := mem_map_of_mem there
  rw [defined] at image
  obtain ⟨definition, mem, same⟩ := mem_map.mp image
  exact ⟨definition, mem, same.symm⟩

theorem WellFormed.ready (formed : module.WellFormed) :
    Verify.Ready module.entry.body module.entry.captures module.converted module.table where
  exact := formed.exact
  closures := (Block.convert_spec module.entry module.entry.captures).2.1
  toplevel := module.contains_toplevel
  lawful := formed.lawful
  defined name := (formed.table name).mpr
  read _ := formed.contains_of_reads

theorem body_strip (captures : Captures) (block : Block) :
    (block.strip captures).body = Code.strip captures block.body := by
  cases block
  rfl

end Module

end MiddleEnd
