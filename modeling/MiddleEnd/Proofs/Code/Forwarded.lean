import MiddleEnd.Proofs.Code.Unread

/-! What forwarding leaves of the copies: nothing reads a temporary copy, calls of externals are found
whatever the number of copies in between, and only such temporary copies stay as end a block or are read by
nothing. -/

namespace MiddleEnd

open List

variable {code whole before after front back : Code} {module : Module} {removed : List Nat}
  {instr : Instr Block} {gone : List String} {name : String} {block : Block} {external operand : String}
  {origin : Instr Block} {op : Op} {ignored : Instr Block → Prop}

/-! ### Chains of copies -/

inductive Code.Leads (code : Code) : String → String → Prop
  | external {instr : Instr Block} {target : String} (there : instr ∈ instrs code)
    (value : instr.value = .op (.external target)) : Leads code instr.name target
  | ref {instr : Instr Block} {target external : String} (there : instr ∈ instrs code)
    (value : instr.value = .op (.ref target)) (leads : Leads code target external) :
    Leads code instr.name external

theorem Instr.value_of_copy? {copy : Copy} (here : instr.copy? = some copy) :
    instr.value = .op (if copy.isExternal then .external copy.target else .ref copy.target) := by
  unfold Instr.copy? at here
  split at here
  · next value =>
    cases here
    exact value
  · next value =>
    cases here
    exact value
  · cases here

theorem Code.leads_iff (nodup : (defs code).Nodup) : code.Leads name external ↔
      ∃ names, Copies.external? (copies code) name = some (names, external) := by
  constructor
  · intro leads
    induction leads with
    | @external instr target there value =>
      have here : (copies code).find? instr.name = some ⟨instr.id, target, true⟩ :=
        (mem_copies nodup).mpr ⟨instr, there, rfl, by rw [Instr.copy?, value]⟩
      exact ⟨_, Copies.external?_of_external here rfl⟩
    | @ref instr target external there value _ ih =>
      obtain ⟨names, found⟩ := ih
      obtain ⟨fuel, found⟩ := Copies.external?_eq_some.mp found
      have here : (copies code).find? instr.name = some ⟨instr.id, target, false⟩ :=
        (mem_copies nodup).mpr ⟨instr, there, rfl, by rw [Instr.copy?, value]⟩
      exact ⟨_, Copies.external?_eq_some.mpr
        ⟨fuel + 1, Copies.toExternal_succ.mpr ⟨_, here, .inr ⟨rfl, names, rfl, found⟩⟩⟩⟩
  · rintro ⟨names, found⟩
    rw [Copies.external?_eq_some] at found
    obtain ⟨fuel, found⟩ := found
    induction fuel generalizing name names with
    | zero => cases found
    | succ _ ih =>
      obtain ⟨copy, here, ⟨outside, _, rfl⟩ | ⟨inside, rest, _, rest_found⟩⟩ :=
        Copies.toExternal_succ.mp found
      · obtain ⟨instr, there, rfl, is_copy⟩ := (mem_copies nodup).mp here
        exact .external there (by simpa [outside] using Instr.value_of_copy? is_copy)
      · obtain ⟨instr, there, rfl, is_copy⟩ := (mem_copies nodup).mp here
        exact .ref there (by simpa [inside] using Instr.value_of_copy? is_copy) (ih rest rest_found)

namespace Copies

variable {copies : NameMap Copy}

theorem external?_target {names : List String}
    (found : external? copies (target copies name) = some (names, external)) :
    ∃ names, external? copies name = some (names, external) := by
  rw [target] at found
  split at found
  · next copy here =>
    split at found
    · exact ⟨names, found⟩
    · next inside =>
      obtain ⟨fuel, found⟩ := external?_eq_some.mp found
      exact ⟨_, external?_eq_some.mpr
        ⟨fuel + 1, toExternal_succ.mpr ⟨copy, here, .inr ⟨by simpa using inside, names, rfl, found⟩⟩⟩⟩
  · exact ⟨names, found⟩

theorem Of.target_spec (of : Of copies whole) (temp : isTemporary (target copies name) = true)
    (there : origin ∈ Code.instrs whole) (named : origin.name = target copies name) (source : String) :
    origin.value ≠ .op (.ref source) := by
  intro value
  have here := of.copy origin there
  rw [named, Instr.copy?, value] at here
  dsimp only at here
  cases found : copies.find? name with
  | none =>
    rw [target, found] at here
    dsimp only at here
    cases found.symm.trans here
  | some copy =>
    rw [target, found] at here temp
    dsimp only at here temp
    cases outside : copy.isExternal with
    | true =>
      rw [if_pos outside, found] at here
      cases here
      cases outside
    | false =>
      rw [if_neg (by simp [outside])] at temp
      obtain ⟨owner, mem, _, is_copy⟩ := of.origin found
      have plain := of.plain owner mem
      rw [Instr.value_of_copy? is_copy, if_neg (by simp [outside])] at plain
      cases temp.symm.trans plain

theorem mem_operands_redirect (read : operand ∈ (op.redirect copies).operands) :
    op = .ref operand ∨ ∃ old, operand = target copies old := by
  rcases op.copy_or_original with ⟨target, rfl⟩ | ⟨target, rfl⟩ | original
  · exact .inl (by rw [mem_singleton.mp read])
  · cases read
  · rw [original.redirect_eq, Op.operands_mapOperands] at read
    obtain ⟨old, _, rfl⟩ := mem_map.mp read
    exact .inr ⟨old, rfl⟩

theorem redirect_eq_call (plain : Value.Plain (.op op)) {kind : CallKind} {called : String}
    {args : List String} (same : op.redirect copies = .call kind called args) :
    ∃ name old, op = .call .direct name old ∧
      (kind = .external ∧ (∃ names, external? copies name = some (names, called)) ∨
        kind = .direct ∧ external? copies name = none ∧ called = target copies name) := by
  cases op with
  | call own name old =>
    obtain rfl : own = .direct := plain
    refine ⟨name, old, rfl, ?_⟩
    simp only [Op.redirect, callee, reduceCtorEq, if_false] at same
    split at same
    · next names external found =>
      cases same
      exact .inl ⟨rfl, names, found⟩
    · next absent =>
      cases same
      exact .inr ⟨rfl, absent, rfl⟩
  | _ => cases same

end Copies

/-! ### What is left of a block -/

namespace Code

variable {copies : NameMap Copy} {target : String}

theorem without_redirect_ref (value : ((instr.redirect copies).without removed).value = .op (.ref target)) :
    (instr.redirect copies).without removed = instr := by
  obtain ⟨id, _, _, own⟩ := instr
  cases own with
  | op op =>
    obtain rfl := Op.redirect_eq_ref (Value.op.inj value)
    rfl
  | branch => cases value
  | function => cases value

theorem exists_split (split : without removed (redirect copies code) = front ++ instr :: back)
    (value : instr.value = .op (.ref target)) :
    ∃ before after, code = before ++ instr :: after ∧ instr.id ∉ removed ∧
      without removed (redirect copies before) = front ∧ without removed (redirect copies after) = back := by
  rw [without_redirect_eq, map_eq_append_iff] at split
  obtain ⟨_, _, parts, rfl, here⟩ := split
  obtain ⟨origin, _, rfl, same, rfl⟩ := map_eq_cons_iff.mp here
  obtain ⟨before, _, rfl, rfl, second_eq⟩ := filter_eq_append_iff.mp parts
  obtain ⟨gone, after, rfl, taken, present, rfl⟩ := filter_eq_cons_iff.mp second_eq
  have unchanged := without_redirect_ref ((congrArg Instr.value same).trans value)
  obtain rfl : origin = instr := unchanged.symm.trans same
  refine ⟨before ++ gone, after, by simp, by simpa using present, ?_, without_redirect_eq ..⟩
  rw [without_redirect_eq, filter_append, filter_eq_nil_iff.mpr taken, append_nil]

end Code

/-- All blocks of a module. -/
def Module.blocks (module : Module) : List Block := module.entry :: Code.innerBlocks module.entry.body

theorem Module.mem_instrs_of_blocks (mem : block ∈ module.blocks) (there : instr ∈ block.body) :
    instr ∈ Code.instrs module.entry.body := by
  rcases mem_cons.mp mem with rfl | inner
  · exact Code.mem_instrs there
  · obtain ⟨_, own, here⟩ := mem_flatMap.mp inner
    exact Code.mem_instrs_of_block own here (Code.mem_instrs there)

theorem Copies.Removal.innerBlocks_eq {copies : NameMap Copy}
    (removal : Removal copies whole removed gone) :
    Code.innerBlocks (Code.without removed (Code.redirect copies whole)) =
      (Code.innerBlocks whole).map fun block => (block.redirect copies).without removed := by
  rw [Code.innerBlocks, Code.innerBlocks, map_flatMap]
  refine removal.flatMap_eq (fun instr _ _ => Instr.blocks_forward copies removed instr) fun instr inside taken => ?_
  obtain ⟨op, value⟩ := removal.isOp inside taken
  rewrite [value]
  rfl

namespace Module

section

variable (forwards : module.Forwards removed gone)
include forwards

theorem Forwards.body_eq : module.forward.entry.body =
    Code.without removed (Code.redirect (Code.copies module.entry.body) module.entry.body) := by
  rw [forwards.entry, Block.body_forward]

theorem Forwards.blocks_eq : module.forward.blocks =
    module.blocks.map fun block => (block.redirect (Code.copies module.entry.body)).without removed := by
  rewrite [blocks, forwards.body_eq, forwards.removal.innerBlocks_eq, forwards.entry]
  rfl

theorem Forwards.tried (mem : block ∈ module.blocks) : Code.Tried removed block.body := by
  rcases mem_cons.mp mem with rfl | inner
  · exact forwards.trimmed.tried
  · obtain ⟨owner, own, here⟩ := mem_flatMap.mp inner
    exact (forwards.endings owner own block here).tried

end

end Module

/-! ### What is left of a module -/

def Block.Keeps (block block' : Block) : Prop :=
  ∀ instr ∈ block.body,
    (instr.copy? = none → ∃ instr' ∈ block'.body, instr'.id = instr.id ∧ instr'.name = instr.name) ∧
    (instr.copy? ≠ none → isTemporary instr.name = false → instr ∈ block'.body)

/-- How copies are cleared from a module. Temporaries that nothing reads are `ignored`. -/
structure Module.Clears (before after : Module) (ignored : Instr Block → Prop) : Prop where
  /-- No operand is a temporary that copies a local value. -/
  operands : ∀ instr ∈ Code.instrs after.entry.body, ∀ operand ∈ instr.value.operands,
    isTemporary operand = true → ∀ origin ∈ Code.instrs before.entry.body, origin.name = operand →
      ∀ target, origin.value ≠ .op (.ref target)
  /-- What stands for an external is not called as a function. -/
  direct : ∀ instr ∈ Code.instrs after.entry.body, ∀ callee args,
    instr.value = .op (.call .direct callee args) → ∀ external, ¬ Code.Leads before.entry.body callee external
  /-- An external is called where what was called stands for it. -/
  external : ∀ instr ∈ Code.instrs after.entry.body, ∀ external args,
    instr.value = .op (.call .external external args) →
      ∃ origin ∈ Code.instrs before.entry.body, origin.id = instr.id ∧ origin.name = instr.name ∧
        ∃ callee args', origin.value = .op (.call .direct callee args') ∧
          Code.Leads before.entry.body callee external
  /-- A temporary copy that is left ends its block, and does not follow what it copies there unless that is a
  function. -/
  remaining : ∀ block ∈ after.blocks, ∀ front instr back target, block.body = front ++ instr :: back →
    isTemporary instr.name = true → instr.value = .op (.ref target) → (back = [] ∨ ignored instr) ∧
      (back = [] → ∀ more previous, front = more ++ [previous] → previous.name = target →
        previous.value.isFunction = true)
  keeps : List.Forall₂ Block.Keeps before.blocks after.blocks

namespace Module

section

variable (forwards : module.Forwards removed gone)
include forwards

theorem Forwards.exists_origin (mem : instr ∈ Code.instrs module.forward.entry.body) :
    ∃ origin ∈ Code.instrs module.entry.body,
      instr = (origin.redirect (Code.copies module.entry.body)).without removed := by
  rw [forwards.body_eq] at mem
  exact forwards.removal.exists_origin mem

theorem Forwards.exists_op (mem : instr ∈ Code.instrs module.forward.entry.body)
    (value : instr.value = .op op) :
    ∃ origin ∈ Code.instrs module.entry.body, origin.id = instr.id ∧ origin.name = instr.name ∧
      ∃ old : Op, origin.value = .op old ∧ old.redirect (Code.copies module.entry.body) = op := by
  obtain ⟨⟨id, name, _, own⟩, there, rfl⟩ := forwards.exists_origin mem
  cases own with
  | op old => exact ⟨_, there, rfl, rfl, old, rfl, Value.op.inj value⟩
  | branch => cases value
  | function => cases value

theorem Forwards.operand_spec (mem : instr ∈ Code.instrs module.forward.entry.body)
    (read : operand ∈ instr.value.operands) (temp : isTemporary operand = true)
    (there : origin ∈ Code.instrs module.entry.body) (named : origin.name = operand) (target : String) :
    origin.value ≠ .op (.ref target) := by
  obtain ⟨⟨id, name, _, own⟩, inside, rfl⟩ := forwards.exists_origin mem
  have of := forwards.removal.of
  cases own with
  | op _ =>
    rcases Copies.mem_operands_redirect read with rfl | ⟨old, rfl⟩
    · cases temp.symm.trans (of.plain _ inside)
    · exact of.target_spec temp there named target
  | branch _ _ _ =>
    obtain rfl := mem_singleton.mp read
    exact of.target_spec temp there named target
  | function => cases read

theorem Forwards.keeps : Forall₂ Block.Keeps module.blocks module.forward.blocks := by
  rw [forwards.blocks_eq, forall₂_map_right_iff, forall₂_same]
  intro block mem instr there
  have inside := mem_instrs_of_blocks mem there
  have stays (present : instr.id ∉ removed) :
      (instr.redirect (Code.copies module.entry.body)).without removed ∈
        ((block.redirect (Code.copies module.entry.body)).without removed).body := by
    rw [Block.body_forward, Code.without_redirect_eq]
    exact mem_map_of_mem (mem_filter.mpr ⟨there, by simpa using present⟩)
  refine ⟨fun plain => ⟨_, stays (forwards.removal.kept inside plain), rfl, rfl⟩, fun is_copy bound => ?_⟩
  have present : instr.id ∉ removed := fun taken => by
    have temp := forwards.removal.temporary _ ((forwards.removal.numbered instr inside).mp taken)
    cases temp.symm.trans bound
  have unchanged : (instr.redirect (Code.copies module.entry.body)).without removed = instr := by
    obtain ⟨_, here⟩ := Option.ne_none_iff_exists'.mp is_copy
    have value := Instr.value_of_copy? here
    obtain ⟨id, _, _, _⟩ := instr
    dsimp only at value
    subst value
    split <;> rfl
  exact unchanged ▸ stays present

end

theorem early_of_blocks (mem : block ∈ module.blocks) (split : block.body = before ++ instr :: after)
    (more : after ≠ []) : Code.Early module.entry.body instr := by
  have early : instr ∈ block.body.dropLast := by
    rw [split, dropLast_append_of_ne_nil (cons_ne_nil _ _), dropLast_cons_of_ne_nil more]
    exact mem_append_right _ (.head _)
  rcases mem_cons.mp mem with rfl | inner
  · exact .inl early
  · exact .inr ⟨block, inner, early⟩

section

variable (forwards : module.Forwards removed gone)
include forwards

theorem Forwards.removed_of_reads (there : instr ∈ Code.instrs module.entry.body)
    (temp : isTemporary instr.name = true) {target : String} (value : instr.value = .op (.ref target))
    (reads : Code.Reads module.entry.body instr.name) : instr.id ∈ removed := by
  have here : (Code.copies module.entry.body).find? instr.name = some ⟨instr.id, target, false⟩ := by
    rw [forwards.removal.of.copy instr there, Instr.copy?, value]
  have drained {role : Role} (use : (instr.name, role) ∈ Code.uses module.entry.body) (plain : role ≠ .result) :
      instr.id ∈ removed :=
    forwards.drained instr.name role use plain temp _ here (by simp)
  obtain ⟨user, mem, read⟩ := reads
  rcases Value.exists_role read with use | use <;>
    exact drained (mem_flatMap.mpr ⟨user, mem, use⟩) (by simp)

theorem Forwards.isFunction_of_last (mem : block ∈ module.blocks) {more : Code} {previous : Instr Block}
    (split : block.body = before ++ instr :: after) (present : instr.id ∉ removed)
    (left : Code.without removed (Code.redirect (Code.copies module.entry.body) before) = more ++ [previous])
    (last : Code.without removed (Code.redirect (Code.copies module.entry.body) after) = [])
    (temp : isTemporary instr.name = true) (value : instr.value = .op (.ref previous.name)) :
    previous.value.isFunction = true := by
  rw [Code.without_redirect_eq, map_eq_nil_iff] at last
  rw [Code.without_redirect_eq, map_eq_append_iff] at left
  obtain ⟨first, _, left, _, second_eq⟩ := left
  obtain ⟨origin, rfl, rfl⟩ := map_eq_singleton_iff.mp second_eq
  have is_function : origin.value.isFunction = true := by
    refine forwards.tried mem first origin instr ?_ temp value
    rw [split, filter_append, filter_cons, left, last]
    simp [present]
  simpa [Instr.without] using is_function

theorem Forwards.remaining
    (reads : ∀ instr, isTemporary instr.name = true → Code.Early module.entry.body instr →
      Code.Reads module.entry.body instr.name ∨ ignored instr) (mem : block ∈ module.forward.blocks)
    {target : String} (split : block.body = front ++ instr :: back)
    (temp : isTemporary instr.name = true) (value : instr.value = .op (.ref target)) :
    (back = [] ∨ ignored instr) ∧ (back = [] → ∀ more previous, front = more ++ [previous] →
      previous.name = target → previous.value.isFunction = true) := by
  rw [forwards.blocks_eq] at mem
  obtain ⟨_, there, rfl⟩ := mem_map.mp mem
  rw [Block.body_forward] at split
  obtain ⟨_, after, whole, present, left, rfl⟩ := Code.exists_split split value
  constructor
  · by_cases last : after = []
    · subst last
      exact .inl rfl
    · refine .inr ((reads instr temp (early_of_blocks there whole last)).resolve_left fun read => ?_)
      have inside := mem_instrs_of_blocks there (whole ▸ mem_append_right _ (.head _))
      exact present (forwards.removed_of_reads inside temp value read)
  · rintro last more previous rfl rfl
    exact forwards.isFunction_of_last there whole present left last temp value

end

theorem Raw.clears (raw : module.Raw)
    (reads : ∀ instr, isTemporary instr.name = true → Code.Early module.entry.body instr →
      Code.Reads module.entry.body instr.name ∨ ignored instr) :
    module.Clears module.forward ignored := by
  obtain ⟨_, _, forwards⟩ := raw.exists_forwards
  constructor
  · intro instr mem operand read temp origin there named target
    exact forwards.operand_spec mem read temp there named target
  · intro instr mem callee args value external leads
    obtain ⟨origin, there, _, _, old, own, same⟩ := forwards.exists_op mem value
    have plain : Value.Plain (.op old) := own ▸ raw.plain origin there
    obtain ⟨name, _, _, ⟨kind, _⟩ | ⟨_, absent, rfl⟩⟩ := Copies.redirect_eq_call plain same
    · cases kind
    · obtain ⟨names, found⟩ := (Code.leads_iff raw.defs_nodup).mp leads
      obtain ⟨names, found⟩ := Copies.external?_target found
      cases absent.symm.trans found
  · intro instr mem external args value
    obtain ⟨origin, there, numbered, named, old, own, same⟩ := forwards.exists_op mem value
    have plain : Value.Plain (.op old) := own ▸ raw.plain origin there
    obtain ⟨name, args', rfl, ⟨_, found⟩ | ⟨kind, _⟩⟩ := Copies.redirect_eq_call plain same
    · exact ⟨origin, there, numbered, named, name, args', own, (Code.leads_iff raw.defs_nodup).mpr found⟩
    · cases kind
  · intro block mem front instr back target split temp value
    exact forwards.remaining reads mem split temp value
  · exact forwards.keeps

end Module

/-- Forwarding clears the copies of every module that comes from an accepted program, save those of an
expression in front of an empty tuple pattern. -/
theorem Surface.forward_clears {program : Surface} (lexed : program.Lexed) {resolved : Resolved}
    {typed : Typed} {settings : Settings} (resolves : program.resolve = .ok resolved)
    (checks : resolved.check settings = .ok typed) :
    ∃ module run, typed.lower = .ok module ∧ module.entry = .mk "program" run.all ∧
      run.IsCode (labelOf resolved.body.names) resolved.body ∧
      module.Clears module.forward fun instr =>
        Ignored (labelOf resolved.body.names) instr resolved.body run := by
  obtain ⟨module, lowered, raw⟩ := exists_lowered lexed resolves checks
  have placed := wellScoped_resolve (.of_names lexed.1 lexed.2) resolves
  have labelled := Resolved.labelled_check placed checks
  obtain ⟨run, entry, codes⟩ := Typed.lower_codes labelled lowered
  rw [Resolved.erase_check placed checks] at codes
  have fine : ∀ symbol ∈ resolved.body.names, isTemporary symbol.name = false := fun symbol member =>
    Symbol.isTemporary_name (placed.body.names symbol member)
  refine ⟨module, run, lowered, entry, codes, raw.clears fun instr temp early => ?_⟩
  rw [entry] at early ⊢
  exact Run.IsCode.reads_or_ignored codes fine temp early

/-- `let ask = confirm in let again = ask in let nothing = () in let () = nothing in
let rec keep x = x in again (keep 1)` -/
def Surface.askedAgain : Surface :=
  let name (text : String) : Ident := ⟨text, default, 0⟩
  let var (text : String) (order : Nat) : Expr Ident Mention TypeExpr Span :=
    .var default ⟨name text, order⟩
  { body :=
      .letIn default ⟨name "ask", none⟩ (var "confirm" 0)
        (.letIn default ⟨name "again", none⟩ (var "ask" 1)
          (.letIn default ⟨name "nothing", none⟩ (.tuple default [])
            (.letTuple default [] (var "nothing" 2)
              (.letRec default (name "keep") [⟨name "x", none⟩] none (var "x" 3)
                (.apply default (var "again" 4)
                  [.apply default (var "keep" 5) [.lit default (.int 1)]]))))) }

def Code.temporaryCopies (code : Code) : List String :=
  ((instrs code).filter fun instr => isTemporary instr.name && instr.copy?.isSome).map Instr.name

/-- The copy that an empty pattern takes apart and the one at the end of a function stay, and two others go. -/
theorem Surface.forward_clears_askedAgain : askedAgain.Lexed ∧
    ∃ resolved typed module run, askedAgain.resolve = .ok resolved ∧
      resolved.check { seedBuiltins := false } = .ok typed ∧ typed.lower = .ok module ∧
      (Code.temporaryCopies module.entry.body, Code.temporaryCopies module.forward.entry.body) =
        (["$4", "$5", "$6", "$7"], ["$4", "$5"]) ∧
      (module.forward.run .agreeable 1).trace.map Request.name = ["confirm"] ∧
      module.entry = .mk "program" run.all ∧ run.IsCode (labelOf resolved.body.names) resolved.body ∧
      module.Clears module.forward fun instr =>
        Ignored (labelOf resolved.body.names) instr resolved.body run := by
  have lexed : askedAgain.Lexed := by decide +kernel
  obtain ⟨resolved, typed, resolves, checks, test⟩ :=
    exists_of_accepted askedAgain { seedBuiltins := false } fun _ typed => typed.lowersTo fun module =>
      decide ((Code.temporaryCopies module.entry.body, Code.temporaryCopies module.forward.entry.body) =
        (["$4", "$5", "$6", "$7"], ["$4", "$5"])) &&
      decide ((module.forward.run .agreeable 1).trace.map Request.name = ["confirm"])
  obtain ⟨module, run, lowered, entry, codes, clears⟩ := forward_clears lexed resolves checks
  rw [Typed.lowersTo_eq lowered, Bool.and_eq_true, decide_eq_true_eq, decide_eq_true_eq] at test
  exact ⟨lexed, resolved, typed, module, run, resolves, checks, lowered, test.1, test.2, entry, codes, clears⟩

end MiddleEnd
