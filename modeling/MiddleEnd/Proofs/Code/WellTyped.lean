import MiddleEnd.Proofs.Code.LowerTypes
import MiddleEnd.Proofs.Code.SingleAssignment
import MiddleEnd.Proofs.Typing.Derivation

/-! Forwarding and closure conversion keep the types of code, so what is handed to code generation
follows the typing rules. -/

namespace MiddleEnd

open List

variable {copies : NameMap Copy} {table table' : TypeTable} {module : Module}
  {externals : String → Option Ty} {name : String} {type : Ty} {op : Op} {block : Block}

/-! ### Forwarding -/

namespace Copies.Of

variable {whole : Code}

section

variable (of : Copies.Of copies whole)
include of

theorem types_of_copy (typed : Code.HasTypes externals table whole)
    {copy : Copy} (here : copies.find? name = some copy) (reads : table.Reads name type) :
    (copy.isExternal = false → table.Reads copy.target type) ∧
      (copy.isExternal = true →
        ∃ scheme, externals copy.target = some scheme ∧ scheme.HasInstance type) := by
  obtain ⟨instr, mem, rfl, shape⟩ := of.origin here
  obtain ⟨_, found, typed⟩ := typed instr mem
  obtain ⟨scheme, found', fits⟩ := reads
  obtain rfl := Option.some.inj (found.symm.trans found')
  unfold Instr.copy? at shape
  split at shape
  · next target value =>
    cases shape
    rw [value] at typed
    cases typed with
    | ref target_reads => exact ⟨fun _ => target_reads.instance fits, Bool.noConfusion⟩
  · next target value =>
    cases shape
    rw [value] at typed
    cases typed with
    | external declared more => exact ⟨Bool.noConfusion, fun _ => ⟨_, declared, more.trans fits⟩⟩
  · cases shape

theorem reads_target (typed : Code.HasTypes externals table whole)
    (reads : table.Reads name type) :
    table.Reads (Copies.target copies name) type := by
  rw [Copies.target]
  split
  · next copy here =>
    split
    · exact reads
    · next inside => exact (of.types_of_copy typed here reads).1 (by simpa using inside)
  · exact reads

theorem exists_external (typed : Code.HasTypes externals table whole)
    {fuel : Nat} {external : String} {names : List String}
    (found : Copies.toExternal copies fuel name = some (names, external))
    (reads : table.Reads name type) :
    ∃ scheme, externals external = some scheme ∧ scheme.HasInstance type := by
  induction fuel generalizing name names with
  | zero => cases found
  | succ _ ih =>
    obtain ⟨_, here, ⟨outside, -, rfl⟩ | ⟨inside, _, -, rest_found⟩⟩ := toExternal_succ.mp found
    · exact (of.types_of_copy typed here reads).2 outside
    · exact ih rest_found ((of.types_of_copy typed here reads).1 inside)

theorem hasType_callee (typed : Code.HasTypes externals table whole)
    (op_typed : op.HasType externals table type) :
    (Copies.callee copies op).1.HasType externals table type := by
  cases op with
  | call _ callee _ =>
    cases op_typed with
    | call inside callee_reads args_read =>
      rw [Copies.callee, if_neg inside]
      split
      · next names external found =>
        obtain ⟨_, declared, fits⟩ := of.exists_external typed found callee_reads
        exact .callExternal declared fits args_read
      · exact .call inside callee_reads args_read
    | callExternal declared fits args_read => exact .callExternal declared fits args_read
  | _ => exact op_typed

end

theorem callee_ne_closure (plain : Value.Plain (.op op)) (captures : List String) (function : String) :
    (Copies.callee copies op).1 ≠ .closure captures function := by
  cases op with
  | call _ callee _ =>
    rw [Copies.callee]
    split
    · simp
    · split <;> simp
  | closure _ _ => exact plain.elim
  | _ => simp [Copies.callee]

theorem hasType_redirect (of : Copies.Of copies whole) (typed : Code.HasTypes externals table whole)
    (plain : Value.Plain (.op op)) (op_typed : op.HasType externals table type)
    (kept : ∀ operand ∈ (op.redirect copies).operands, table'.find? operand = table.find? operand) :
    (op.redirect copies).HasType externals table' type := by
  have keep {operand : String} (mem : operand ∈ (op.redirect copies).operands) {type : Ty}
      (reads : table.Reads operand type) : table'.Reads operand type := by
    obtain ⟨scheme, found, fits⟩ := reads
    exact ⟨scheme, (kept operand mem).trans found, fits⟩
  rcases op.copy_or_original with ⟨target, rfl⟩ | ⟨target, rfl⟩ | original
  · cases op_typed with
    | ref reads => exact .ref (keep (.head _) reads)
  · cases op_typed with
    | external declared fits => exact .external declared fits
  · rw [original.redirect_eq]
    refine (of.hasType_callee typed op_typed).mapOperands (callee_ne_closure plain) ?_
    intro _ mem _ reads
    refine keep ?_ (of.reads_target typed reads)
    rw [original.redirect_eq, Op.operands_mapOperands]
    exact mem_map_of_mem mem

end Copies.Of

theorem Code.Ending.returns {removed : List Nat} (ending : Code.Ending removed block.body)
    (typed : Code.HasTypes externals table block.body)
    (kept : ∀ instr ∈ block.body, instr.id ∉ removed →
      table'.find? instr.name = table.find? instr.name) (returns : block.Returns table type) :
    ((block.redirect copies).without removed).Returns table' type := by
  obtain ⟨_, body⟩ := block
  obtain ⟨front, instr, back, rfl, present, -, gone, trailing⟩ := ending
  obtain ⟨front', last, split, reads⟩ := returns
  have ends : (front ++ instr :: back).getLast? = some last := by
    rw [show front ++ instr :: back = front' ++ [last] from split, getLast?_concat]
  -- If the last instruction goes, it is a copy of the one that is last now.
  have reads : table.Reads instr.name type := by
    rcases trailing with rfl | ⟨more, last', rfl, copy⟩
    · obtain rfl : instr = last := by simpa using ends
      exact reads
    · obtain rfl : last' = last := by simpa [getLast?_cons] using ends
      obtain ⟨_, found, last_typed⟩ := typed last' (Code.mem_instrs (by simp [Block.body]))
      obtain ⟨scheme, found', fits⟩ := reads
      obtain rfl := Option.some.inj (found.symm.trans found')
      rw [copy] at last_typed
      cases last_typed with
      | ref target_reads => exact target_reads.instance fits
  refine ⟨_, _, Code.without_redirect_append present gone, ?_⟩
  obtain ⟨scheme, found, fits⟩ := reads
  exact ⟨scheme, (kept instr (by simp [Block.body]) present).trans found, fits⟩

namespace Module

theorem Raw.find?_forward (raw : module.Raw) (clean : isTemporary name = false) :
    module.forward.table.find? name = module.table.find? name := by
  obtain ⟨_, _, forwards⟩ := raw.exists_forwards
  refine forwards.types name fun taken => ?_
  rw [forwards.removal.temporary name taken] at clean
  cases clean

theorem Raw.forward_hasTypes (raw : module.Raw)
    (typed : Code.HasTypes externals module.table module.entry.body)
    (returns : module.entry.Returns module.table type) :
    Code.HasTypes externals module.forward.table module.forward.entry.body ∧
      module.forward.entry.Returns module.forward.table type := by
  obtain ⟨removed, gone, forwards⟩ := raw.exists_forwards
  have of := raw.copies
  have stays {instr : Instr Block} (there : instr ∈ Code.instrs module.entry.body)
      (present : instr.id ∉ removed) :
      module.forward.table.find? instr.name = module.table.find? instr.name :=
    forwards.types _ fun taken => present ((forwards.removal.numbered instr there).mpr taken)
  have block_returns {block : Block} (inside : Code.instrs block.body ⊆ Code.instrs module.entry.body)
      (ending : Code.Ending removed block.body) {type : Ty} (returns : block.Returns module.table type) :
      ((block.redirect (Code.copies module.entry.body)).without removed).Returns module.forward.table type :=
    ending.returns (fun instr mem => typed instr (inside mem))
      (fun instr mem => stays (inside (Code.mem_instrs mem))) returns
  refine ⟨fun instr mem => ?_,
    forwards.entry ▸ block_returns (List.Subset.refl _) forwards.trimmed.ending returns⟩
  -- What is left neither defines nor reads a name that has gone.
  have formed := raw.wellFormed_forward
  have kept {name : String} (contained : module.forward.table.contains name = true) :
      module.forward.table.find? name = module.table.find? name :=
    forwards.types name ((forwards.table name).mp contained).2
  have own := kept (formed.contains_of_mem mem)
  have read : ∀ operand ∈ instr.value.operands,
      module.forward.table.find? operand = module.table.find? operand := fun operand here =>
    kept (formed.contains_of_reads ⟨instr, mem, here⟩)
  obtain ⟨origin, there, rfl⟩ : ∃ origin ∈ Code.instrs module.entry.body,
      instr = (origin.redirect (Code.copies module.entry.body)).without removed := by
    rw [forwards.entry, Block.body_forward] at mem
    exact forwards.removal.exists_origin mem
  obtain ⟨type, found, origin_typed⟩ := typed origin there
  refine ⟨type, own.trans found, ?_⟩
  have plain := raw.plain origin there
  have arm_returns {block : Block} (arm : block ∈ origin.value.blocks) {type : Ty}
      (returns : block.Returns module.table type) :
      ((block.redirect (Code.copies module.entry.body)).without removed).Returns module.forward.table type :=
    block_returns (fun instr mem => Code.mem_instrs_of_block there arm mem)
      (forwards.endings origin there block arm).ending returns
  obtain ⟨id, name, _, value⟩ := origin
  cases value with
  | op _ => exact of.hasType_redirect typed plain origin_typed read
  | branch _ _ _ =>
    obtain ⟨test_reads, yes_returns, no_returns⟩ := origin_typed
    refine ⟨?_, arm_returns (.head _) yes_returns, arm_returns (.tail _ (.head _)) no_returns⟩
    obtain ⟨scheme, found, fits⟩ := of.reads_target typed test_reads
    exact ⟨scheme, (read _ (.head _)).trans found, fits⟩
  | function params _ _ =>
    obtain ⟨types, result, rfl, params_typed, body_returns⟩ := origin_typed
    refine ⟨types, result, rfl, ?_, arm_returns (.head _) body_returns⟩
    have params_stay : ∀ param ∈ params, param ∉ gone := fun param mem => by
      simpa using forwards.removal.param_stays there param mem
    refine (forall₂_and_left _ _ |>.mpr ⟨params_stay, params_typed⟩).imp ?_
    rintro param type ⟨stays, found⟩
    exact (forwards.types param stays).trans found

end Module

/-! ### Closure conversion -/

theorem Op.HasType.convert (captures : Captures) (typed : op.HasType externals table type) :
    (op.convert captures).HasType externals table type := by
  unfold Op.convert
  split
  · next callee args =>
    cases typed with
    | call _ callee_reads args_read =>
      exact .call (captures.callKind_ne_external callee) callee_reads args_read
  · exact typed

theorem Block.Ended.returns_strip (ended : block.Ended) (captures : Captures)
    (returns : block.Returns table type) : (block.strip captures).Returns table type := by
  obtain ⟨front, _, split, plain⟩ := ended
  obtain ⟨_, _, split', reads⟩ := returns
  obtain ⟨rfl, same⟩ := append_inj' (split.symm.trans split') rfl
  obtain rfl := singleton_inj.mp same
  obtain ⟨stripped, named, strip_eq⟩ := Code.exists_strip_last captures front plain
  exact ⟨_, stripped, by rw [Module.body_strip, split, strip_eq], named ▸ reads⟩

/-- The code of a closure converted program follows the typing rules, and a function at the top level has
the types of its parameters and the result that its body returns. -/
structure Converted.HasTypes (externals : String → Option Ty) (table : TypeTable) (program : Converted) :
    Prop where
  entry : Code.HasTypes externals table program.entry.body
  bodies : ∀ entry ∈ program.toplevel.entries, Code.HasTypes externals table entry.2.body.body
  functions : ∀ entry ∈ program.toplevel.entries, ∃ type, table.find? entry.1 = some type ∧
    Value.HasType externals table (.function entry.2.params entry.2.body entry.2.recursive) type

namespace Module.WellFormed

theorem hasTypes_strip (formed : module.WellFormed)
    (typed : Code.HasTypes externals module.table module.entry.body) {code : Code}
    (inside : Code.instrs code ⊆ Code.instrs module.entry.body) :
    Code.HasTypes externals module.table (Code.strip module.entry.captures code) := by
  induction code using Code.induction with
  | nil => exact Code.hasTypes_nil
  | op ih =>
    rw [Code.instrs, cons_subset] at inside
    obtain ⟨type, found, op_typed⟩ := typed _ inside.1
    rw [Code.strip, Code.hasTypes_cons]
    exact ⟨⟨type, found, Op.HasType.convert _ op_typed, forall_mem_nil _⟩, ih inside.2⟩
  | branch yes_ih no_ih ih =>
    simp only [Code.instrs, Code.blockInstrs, cons_subset, append_subset] at inside
    obtain ⟨here, ⟨yes_inside, no_inside⟩, inside⟩ := inside
    obtain ⟨type, found, reads, yes_returns, no_returns⟩ := typed _ here
    obtain ⟨yes_ended, no_ended⟩ := formed.lawful _ here
    rw [Code.strip, Code.hasTypes_cons]
    have returns := And.intro (yes_ended.returns_strip module.entry.captures yes_returns)
      (no_ended.returns_strip module.entry.captures no_returns)
    refine ⟨⟨type, found, ⟨reads, returns⟩, ?_⟩, ih inside⟩
    simp only [Value.blocks, forall_mem_cons, Module.body_strip]
    exact ⟨yes_ih yes_inside, no_ih no_inside, forall_mem_nil _⟩
  | function body_ih ih =>
    simp only [Code.instrs, Code.blockInstrs, cons_subset, append_subset] at inside
    obtain ⟨here, -, inside⟩ := inside
    obtain ⟨type, found, -⟩ := typed _ here
    rw [Code.strip]
    -- A closure takes the place of its function, and keeps its type.
    split
    · next held held_found =>
      rw [Code.hasTypes_cons]
      refine ⟨⟨type, found, .closure (fun capture mem => ?_) found, forall_mem_nil _⟩, ih inside⟩
      exact Option.isSome_iff_exists.mp
        (formed.contains_of_reads (formed.exact.read held_found capture mem))
    · exact ih inside

theorem converted_hasTypes (formed : module.WellFormed)
    (typed : Code.HasTypes externals module.table module.entry.body) :
    module.converted.HasTypes externals module.table := by
  have origin {entry : String × Toplevel} (mem : entry ∈ module.converted.toplevel.entries) :
      ∃ body, entry.2.body = body.strip module.entry.captures ∧
        ∃ function ∈ Code.instrs module.entry.body, function.name = entry.1 ∧
          ∃ recursive, function.value = .function entry.2.params body recursive := by
    obtain ⟨definition, there, same⟩ := exists_definition (mem_sortBy.mpr mem)
    obtain ⟨function, top, named, recursive, shape⟩ := Code.mem_definitions.mp there
    have own : entry.1 = definition.name := congrArg Definition.name same
    have params : entry.2.params = definition.params := congrArg Definition.params same
    exact ⟨definition.body, congrArg Definition.body same, function, top, named.trans own.symm, recursive,
      params ▸ shape⟩
  constructor
  · rw [(Block.convert_spec module.entry module.entry.captures).1, Module.body_strip]
    exact formed.hasTypes_strip typed (List.Subset.refl _)
  · intro entry mem
    obtain ⟨body, body_eq, function, top, -, recursive, shape⟩ := origin mem
    rw [body_eq, Module.body_strip]
    have here : body ∈ function.value.blocks := by simp [shape, Value.blocks]
    exact formed.hasTypes_strip typed fun _ deep => Code.mem_instrs_of_block top here deep
  · intro entry mem
    obtain ⟨body, body_eq, function, top, named, recursive, shape⟩ := origin mem
    obtain ⟨type, found, function_typed⟩ := typed function top
    have ended := formed.lawful function top
    rw [shape] at function_typed ended
    obtain ⟨types, result, type_eq, params, returns⟩ := function_typed
    exact ⟨type, named ▸ found, types, result, type_eq, params,
      body_eq ▸ Block.Ended.returns_strip ended _ returns⟩

end Module.WellFormed

/-! ### Whole programs -/

/-- A table with the types of binders. -/
def TypeTable.Declares (table : TypeTable) (names : List Bound) : Prop :=
  ∀ bound ∈ names, table.find? bound.symbol.name = some bound.type

/-- What is handed to code generation is well typed: every operand can be read at an instance of its type
so that the instruction computes what the table says of its name. On the way no binder changes its type. -/
theorem Surface.converted_wellTyped {program : Surface} (lexed : program.Lexed) {resolved : Resolved}
    {typed : Typed} {settings : Settings} (resolves : program.resolve = .ok resolved)
    (checks : resolved.check settings = .ok typed) (plain : resolved.body.PlainPatterns) :
    ∃ module, typed.lower = .ok module ∧
      typed.table.Declares typed.body.names ∧ module.table.Declares typed.body.names ∧
      module.forward.table.Declares typed.body.names ∧
      module.forward.converted.HasTypes (fun name => (typed.externals.find? name).map External.type)
        module.forward.table ∧
      module.forward.converted.entry.Returns module.forward.table typed.body.type := by
  obtain ⟨module, lowered, raw⟩ := exists_lowered lexed resolves checks
  have placed := wellScoped_resolve (.of_names lexed.1 lexed.2) resolves
  obtain ⟨aliases, derivation⟩ := Resolved.exists_derivation placed checks plain
  have declared : Lower.Declared (labelOf resolved.body.names) resolved.aliases.length [] [] typed.table
      typed.body := ⟨Resolved.labelled_check placed checks, nofun, derivation.table⟩
  obtain ⟨code_typed, returns, agrees⟩ := Typed.lower_hasTypes derivation.body declared lowered
  obtain ⟨forward_typed, forward_returns⟩ := raw.forward_hasTypes code_typed returns
  have formed := raw.wellFormed_forward
  have lowered_declares : module.table.Declares typed.body.names := (declared.later agrees).within
  refine ⟨module, lowered, derivation.table, lowered_declares, fun bound member => ?_,
    formed.converted_hasTypes forward_typed, ?_⟩
  · exact (raw.find?_forward (declared.clean bound member)).trans (lowered_declares bound member)
  · rw [(Block.convert_spec module.forward.entry module.forward.entry.captures).1]
    exact formed.ended.returns_strip _ forward_returns

/-- `let rec pair x = let rec second y = (x, y) in second in let ask = confirm in
match Some (pair 1 true) with Some p -> let (n, b) = p in if ask b then let (c, m) = pair b n in m else n
| None -> 0`: a closure is made at two types, an external is called through a copy, and blocks end in
copies. -/
def Surface.pairedTwice : Surface :=
  let name (text : String) : Ident := ⟨text, default, 0⟩
  let var (text : String) (order : Nat) : Expr Ident Mention TypeExpr Span :=
    .var default ⟨name text, order⟩
  let int (value : Int) : Expr Ident Mention TypeExpr Span := .lit default (.int value)
  let pair (order : Nat) (first second : Expr Ident Mention TypeExpr Span) :
      Expr Ident Mention TypeExpr Span :=
    .apply default (.apply default (var "pair" order) [first]) [second]
  { body :=
      .letRec default (name "pair") [⟨name "x", none⟩] none
        (.letRec default (name "second") [⟨name "y", none⟩] none
          (.tuple default [var "x" 0, var "y" 1]) (var "second" 2))
        (.letIn default ⟨name "ask", none⟩ (var "confirm" 3)
          (.matchOption default (.some default (pair 4 (int 1) (.lit default (.bool true))))
            ⟨name "p", none⟩
            (.letTuple default [⟨name "n", none⟩, ⟨name "b", none⟩] (var "p" 5)
              (.cond default (.apply default (var "ask" 6) [var "b" 7])
                (.letTuple default [⟨name "c", none⟩, ⟨name "m", none⟩] (pair 8 (var "b" 9) (var "n" 10))
                  (var "m" 11))
                (var "n" 12)))
            (int 0))) }

/-- Ten of thirty-three instructions are taken out, and one closure is left. -/
theorem Surface.converted_wellTyped_pairedTwice : pairedTwice.Lexed ∧
    ∃ resolved typed module, pairedTwice.resolve = .ok resolved ∧
      resolved.check { seedBuiltins := false } = .ok typed ∧ resolved.body.PlainPatterns ∧
      typed.lower = .ok module ∧
      ((Code.instrs module.entry.body).length, (Code.instrs module.forward.entry.body).length,
        module.forward.converted.closures.size) = (33, 23, 1) ∧
      typed.table.Declares typed.body.names ∧ module.table.Declares typed.body.names ∧
      module.forward.table.Declares typed.body.names ∧
      module.forward.converted.HasTypes (fun name => (typed.externals.find? name).map External.type)
        module.forward.table ∧
      module.forward.converted.entry.Returns module.forward.table typed.body.type := by
  have lexed : pairedTwice.Lexed := by decide +kernel
  obtain ⟨resolved, typed, resolves, checks, test⟩ :=
    exists_of_accepted pairedTwice { seedBuiltins := false } fun resolved typed =>
      decide resolved.body.PlainPatterns && typed.lowersTo fun module =>
        decide (((Code.instrs module.entry.body).length, (Code.instrs module.forward.entry.body).length,
          module.forward.converted.closures.size) = (33, 23, 1))
  rw [Bool.and_eq_true, decide_eq_true_eq] at test
  obtain ⟨plain, test⟩ := test
  obtain ⟨module, lowered, types⟩ := converted_wellTyped lexed resolves checks plain
  rw [Typed.lowersTo_eq lowered, decide_eq_true_eq] at test
  exact ⟨lexed, resolved, typed, module, resolves, checks, plain, lowered, test, types⟩

end MiddleEnd
