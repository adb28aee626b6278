import MiddleEnd.Proofs.Code.Closed

/-! Closure conversion takes every function to the top level and changes nothing else: how a block looks
afterwards is said instruction by instruction, and a function is marked as recursive if its own code
calls it. -/

namespace MiddleEnd

open List

variable {α : Type} {captures : Captures} {instr : Instr Block}

/-! ### Blocks before and after -/

mutual
inductive Block.Becomes (captures : Captures) : Block → Block → Prop
  | mk {label : String} {body body' : Code} (code : Code.Becomes captures body body') :
    Block.Becomes captures (.mk label body) (.mk label body')
inductive Code.Becomes (captures : Captures) : Code → Code → Prop
  | nil : Code.Becomes captures [] []
  | call {id : Nat} {name callee : String} {span : Span} {kind : CallKind} {args : List String} {rest rest' : Code}
    (inside : kind ≠ .external) (after : Code.Becomes captures rest rest') :
    Code.Becomes captures (⟨id, name, span, .op (.call kind callee args)⟩ :: rest)
      (⟨id, name, span, .op (.call (if callee ∈ captures.known then .direct else .closure) callee args)⟩ :: rest')
  | op {id : Nat} {name : String} {span : Span} {op : Op} {rest rest' : Code}
    (outside : ∀ kind callee args, op = .call kind callee args → kind = .external)
    (after : Code.Becomes captures rest rest') :
    Code.Becomes captures (⟨id, name, span, .op op⟩ :: rest) (⟨id, name, span, .op op⟩ :: rest')
  | branch {id : Nat} {name test : String} {span : Span} {yes yes' no no' : Block} {rest rest' : Code}
    (yes_becomes : Block.Becomes captures yes yes') (no_becomes : Block.Becomes captures no no')
    (after : Code.Becomes captures rest rest') :
    Code.Becomes captures (⟨id, name, span, .branch test yes no⟩ :: rest)
      (⟨id, name, span, .branch test yes' no'⟩ :: rest')
  | known {id : Nat} {name : String} {span : Span} {params : List String} {body : Block} {recursive : Bool}
    {rest rest' : Code} (known : name ∈ captures.known) (after : Code.Becomes captures rest rest') :
    Code.Becomes captures (⟨id, name, span, .function params body recursive⟩ :: rest) rest'
  | closure {id : Nat} {name : String} {span : Span} {params held : List String} {body : Block} {recursive : Bool}
    {rest rest' : Code} (found : captures.closures.find? name = some held)
    (after : Code.Becomes captures rest rest') :
    Code.Becomes captures (⟨id, name, span, .function params body recursive⟩ :: rest)
      (⟨id, name, span, .op (.closure held name)⟩ :: rest')
end

namespace Code

def Calls (code : Code) (callee : String) : Prop :=
  ∃ instr ∈ instrs code, ∃ kind args, instr.value = .op (.call kind callee args) ∧ kind ≠ .external

mutual
def blockFunctions : Block → List (Instr Block)
  | .mk _ body => functions body
def functions : List (Instr Block) → List (Instr Block)
  | [] => []
  | ⟨_, _, _, .op _⟩ :: rest => functions rest
  | ⟨_, _, _, .branch _ yes no⟩ :: rest => blockFunctions yes ++ blockFunctions no ++ functions rest
  | ⟨id, name, span, .function params body recursive⟩ :: rest =>
    blockFunctions body ++ ⟨id, name, span, .function params body recursive⟩ :: functions rest
end

theorem functions_perm (code : Code) :
    (functions code).Perm ((instrs code).filter fun instr => instr.value.isFunction) := by
  induction code using Code.induction with
  | nil => exact .refl _
  | op ih => simpa [functions, instrs, Value.isFunction] using ih
  | branch yes_ih no_ih ih =>
    simpa [functions, blockFunctions, instrs, blockInstrs, Value.isFunction] using yes_ih.append (no_ih.append ih)
  | function body_ih ih =>
    simp only [functions, blockFunctions, instrs, blockInstrs, filter_cons, Value.isFunction, filter_append,
      if_true]
    exact perm_middle.trans (.cons _ (body_ih.append ih))

theorem map_name_functions (code : Code) :
    (functions code).map Instr.name = (definitions code).map Definition.name := by
  induction code using Code.induction with
  | nil => rfl
  | op ih => exact ih
  | branch yes_ih no_ih ih =>
    simp [functions, blockFunctions, definitions, blockDefinitions, yes_ih, no_ih, ih]
  | function body_ih ih =>
    simp [functions, blockFunctions, definitions, blockDefinitions, body_ih, ih]

theorem becomes_strip {whole code : Code} (exact : captures.Exact whole)
    (inside : ∀ instr ∈ instrs code, instr ∈ instrs whole) (lawful : ∀ instr ∈ instrs whole, instr.value.Lawful) :
    Code.Becomes captures code (Code.strip captures code) := by
  induction code using Code.induction with
  | nil => exact .nil
  | @op _ _ _ op _ ih =>
    rw [instrs, forall_mem_cons] at inside
    have after := ih inside.2
    by_cases direct : ∃ callee args, op = .call .direct callee args
    · obtain ⟨callee, args, rfl⟩ := direct
      rw [Code.strip, Op.convert, exact.callKind_eq]
      exact .call (by decide) after
    · have indirect (callee : String) (args : List String) : op ≠ .call .direct callee args :=
        fun same => direct ⟨callee, args, same⟩
      rw [Code.strip, Hoist.convert_of_indirect indirect]
      refine .op (fun kind callee args same => ?_) after
      subst same
      cases kind with
      | direct => exact absurd rfl (indirect callee args)
      | closure => exact absurd rfl (lawful _ inside.1)
      | external => rfl
  | branch yes_ih no_ih ih =>
    simp only [instrs, blockInstrs, forall_mem_cons, forall_mem_append] at inside
    exact .branch (.mk (yes_ih inside.2.1.1)) (.mk (no_ih inside.2.1.2)) (ih inside.2.2)
  | @function _ name _ params label body recursive _ body_ih ih =>
    simp only [instrs, blockInstrs, forall_mem_cons, forall_mem_append] at inside
    have after := ih inside.2.2
    rw [Code.strip]
    split
    · next held found => exact .closure found after
    · next absent =>
      have mem : (⟨name, params, .mk label body⟩ : Definition) ∈ definitions whole :=
        mem_definitions.mpr ⟨_, inside.1, rfl, recursive, rfl⟩
      exact .known (exact.known_of_find?_eq_none mem absent) after

theorem flat_strip (captures : Captures) (code : Code) :
    ∀ instr ∈ instrs (Code.strip captures code), instr.value.isFunction = false := by
  induction code using Code.induction with
  | nil => exact forall_mem_nil _
  | op ih =>
    rw [Code.strip, instrs]
    exact forall_mem_cons.mpr ⟨rfl, ih⟩
  | branch yes_ih no_ih ih =>
    rw [Code.strip, Block.strip, Block.strip, instrs]
    exact forall_mem_cons.mpr ⟨rfl, forall_mem_append.mpr ⟨forall_mem_append.mpr ⟨yes_ih, no_ih⟩, ih⟩⟩
  | function body_ih ih =>
    rw [Code.strip]
    split
    · rw [instrs]
      exact forall_mem_cons.mpr ⟨rfl, ih⟩
    · exact ih

theorem calls_append {front back : Code} {callee : String} :
    (front ++ back).Calls callee ↔ front.Calls callee ∨ back.Calls callee := by
  simp only [Calls, instrs_append, mem_append, or_and_right, exists_or]

theorem calls_cons {rest : Code} {callee : String} :
    Calls (instr :: rest) callee ↔ Calls [instr] callee ∨ rest.Calls callee :=
  @calls_append [instr] rest callee

end Code

namespace Hoist

variable {current : Option String}

structure Moved (captures : Captures) (former function : Instr Block) : Prop where
  name : function.name = former.name
  span : function.span = former.span
  value : ∃ params body recursive recursive', former.value = .function params body recursive ∧
    function.value = .function params (body.strip captures) recursive' ∧
      (recursive' = true ↔ (body.strip captures).body.Calls former.name)

structure Marks (captures : Captures) (current : Option String) (former : List (Instr Block))
    (calls : String → Prop) (state later : Hoisting) : Prop where
  hoisted : ∃ functions, later.hoisted = state.hoisted ++ functions ∧ List.Forall₂ (Moved captures) former functions
  own {name : String} (running : current = some name) :
    name ∈ later.recursive ↔ name ∈ state.recursive ∨ calls name
  kept {name : String} (differs : current ≠ some name) (apart : name ∉ former.map Instr.name) :
    name ∈ later.recursive ↔ name ∈ state.recursive

structure Unmet (current : Option String) (former : List (Instr Block)) (state : Hoisting) : Prop where
  distinct : (former.map Instr.name).Nodup
  differs : ∀ name ∈ former.map Instr.name, current ≠ some name
  unmarked : ∀ name ∈ former.map Instr.name, name ∉ state.recursive

section

variable {former former' : List (Instr Block)} {calls calls' : String → Prop} {state middle later : Hoisting}

theorem Unmet.left (unmet : Unmet current (former ++ former') state) : Unmet current former state := by
  obtain ⟨distinct, differs, unmarked⟩ := unmet
  simp only [map_append, forall_mem_append] at distinct differs unmarked
  exact ⟨distinct.of_append_left, differs.1, unmarked.1⟩

theorem Unmet.right (unmet : Unmet current (former ++ former') state)
    (marks : Marks captures current former calls state middle) : Unmet current former' middle := by
  obtain ⟨distinct, differs, unmarked⟩ := unmet
  simp only [map_append, forall_mem_append] at distinct differs unmarked
  refine ⟨distinct.of_append_right, differs.2, fun name mem marked => ?_⟩
  have apart : name ∉ former.map Instr.name := fun before => disjoint_of_nodup_append distinct before mem
  exact unmarked.2 name mem ((marks.kept (differs.2 name mem) apart).mp marked)

theorem Marks.trans (first : Marks captures current former calls state middle)
    (second : Marks captures current former' calls' middle later) :
    Marks captures current (former ++ former') (fun name => calls name ∨ calls' name) state later where
  hoisted := by
    obtain ⟨functions, grown, moved⟩ := first.hoisted
    obtain ⟨functions', grown', moved'⟩ := second.hoisted
    exact ⟨functions ++ functions', by rw [grown', grown, append_assoc], rel_append moved moved'⟩
  own running := by rw [second.own running, first.own running, or_assoc]
  kept differs apart := by
    rw [map_append, mem_append, not_or] at apart
    rw [second.kept differs apart.2, first.kept differs apart.1]

theorem Unmet.body {former' : Instr Block} {rest : List (Instr Block)}
    (unmet : Unmet current (former ++ former' :: rest) state) : Unmet (some former'.name) former state := by
  refine ⟨unmet.left.distinct, fun name mem same => ?_, unmet.left.unmarked⟩
  have distinct := unmet.distinct
  rw [map_append, map_cons] at distinct
  rw [← Option.some.inj same] at mem
  exact disjoint_of_nodup_append distinct mem (.head _)

theorem Marks.leave {params : List String} {body : Block} {recursive : Bool}
    (value : instr.value = .function params body recursive)
    (unmet : Unmet current (former ++ [instr]) state)
    (marks : Marks captures (some instr.name) former (body.strip captures).body.Calls state middle) :
    Marks captures current (former ++ [instr]) (fun _ => False) state
      { middle with hoisted := middle.hoisted ++
        [{ instr with value := .function params (body.strip captures) (middle.recursive.contains instr.name) }] } := by
  have unmarked : instr.name ∉ state.recursive := unmet.unmarked instr.name (by simp)
  have kept {name : String} (apart : name ∉ (former ++ [instr]).map Instr.name) :
      name ∈ middle.recursive ↔ name ∈ state.recursive := by
    rw [map_append, mem_append, not_or, map_singleton, mem_singleton] at apart
    exact marks.kept (fun same => apart.2 (Option.some.inj same).symm) apart.1
  refine ⟨?_, fun {name} running => ?_, fun _ apart => kept apart⟩
  · obtain ⟨functions, grown, moved⟩ := marks.hoisted
    refine ⟨functions ++ [_], by rw [grown, append_assoc], rel_append moved (.cons ?_ .nil)⟩
    refine ⟨rfl, rfl, params, body, recursive, _, value, rfl, ?_⟩
    rw [contains_iff_mem, marks.own rfl, or_iff_right unmarked]
  · rw [or_iff_left id]
    exact kept fun mem => unmet.differs name mem running

theorem Marks.congr (marks : Marks captures current former calls state later)
    (same : ∀ name, calls name ↔ calls' name) : Marks captures current former calls' state later where
  hoisted := marks.hoisted
  own running := by rw [marks.own running, same]
  kept := marks.kept

end

theorem noteCall_marks (captures : Captures) (current : Option String) (callee : String) (state : Hoisting) :
    Gives (noteCall current callee) state fun _ later => Marks captures current [] (· = callee) state later := by
  unfold noteCall
  split
  · next running =>
    refine .modify ⟨⟨[], (append_nil _).symm, .nil⟩, fun _ => ?_, fun differs _ => ?_⟩
    · rw [mem_cons, or_comm]
    · rw [mem_cons, or_iff_right]
      rintro rfl
      exact differs running
  · next other =>
    refine .pure ⟨⟨[], (append_nil _).symm, .nil⟩, fun running => ?_, fun _ _ => Iff.rfl⟩
    rw [or_iff_left]
    rintro rfl
    exact other running

theorem marks_refl (captures : Captures) (current : Option String) (state : Hoisting) :
    Marks captures current [] (fun _ => False) state state :=
  ⟨⟨[], (append_nil _).symm, .nil⟩, fun _ => (or_iff_left id).symm, fun _ _ => Iff.rfl⟩

def MarkSpec (captures : Captures) (code : Code) : Prop :=
  ∀ current state, Unmet current (Code.functions code) state →
    Gives (Hoist.code captures current code) state fun result later =>
      result = Code.strip captures code ∧
        Marks captures current (Code.functions code) (Code.Calls (Code.strip captures code)) state later

theorem block_marks {label : String} {body : Code} (spec : MarkSpec captures body) (current : Option String)
    (state : Hoisting) (unmet : Unmet current (Code.functions body) state) :
    Gives (Hoist.block captures current (.mk label body)) state fun result later =>
      result = .mk label (Code.strip captures body) ∧
        Marks captures current (Code.functions body) (Code.Calls (Code.strip captures body)) state later := by
  rw [Hoist.block]
  refine .bind (spec current state unmet) ?_
  rintro _ later ⟨stripped, marks⟩
  refine .pure ⟨?_, marks⟩
  rw [stripped]

theorem calls_op {id : Nat} {own : String} {span : Span} {op : Op} {name : String} :
    Code.Calls [⟨id, own, span, .op op⟩] name ↔ ∃ kind args, op = .call kind name args ∧ kind ≠ .external := by
  simp [Code.Calls, Code.instrs]

theorem code_marks (captures : Captures) (code : Code)
    (lawful : ∀ instr ∈ Code.instrs code, instr.value.Lawful) : MarkSpec captures code := by
  induction code using Code.induction with
  | nil =>
    intro current state _
    refine .pure ⟨rfl, (marks_refl captures current state).congr fun name => ?_⟩
    simp [Code.Calls, Code.strip, Code.instrs]
  | @op _ _ _ op _ ih =>
    rw [Code.instrs, forall_mem_cons] at lawful
    intro current state unmet
    by_cases direct : ∃ callee args, op = .call .direct callee args
    · obtain ⟨callee, args, rfl⟩ := direct
      rw [Hoist.code]
      refine .bind (noteCall_marks captures current callee state) fun _ middle noted => ?_
      refine .bind (ih lawful.2 current middle (unmet.right noted)) ?_
      rintro rest' later ⟨stripped, marks⟩
      refine .pure ⟨by rw [stripped]; rfl, (noted.trans marks).congr fun name => ?_⟩
      rw [Code.strip, Op.convert, Code.calls_cons, calls_op]
      refine or_congr_left ⟨?_, ?_⟩
      · rintro rfl
        exact ⟨_, _, rfl, captures.callKind_ne_external name⟩
      · rintro ⟨kind, _, same, _⟩
        cases same
        rfl
    · have indirect (callee : String) (args : List String) : op ≠ .call .direct callee args :=
        fun same => direct ⟨callee, args, same⟩
      rw [code_op indirect]
      refine .bind (ih lawful.2 current state unmet) ?_
      rintro rest' later ⟨stripped, marks⟩
      refine .pure ⟨?_, marks.congr fun name => ?_⟩
      · rw [stripped, Code.strip, convert_of_indirect indirect]
      · rw [Code.strip, convert_of_indirect indirect, Code.calls_cons, calls_op, or_iff_right]
        rintro ⟨kind, args, rfl, inside⟩
        cases kind with
        | direct => exact indirect name args rfl
        | closure => exact lawful.1 rfl
        | external => exact inside rfl
  | branch yes_ih no_ih ih =>
    simp only [Code.instrs, Code.blockInstrs, forall_mem_cons, forall_mem_append] at lawful
    intro current state unmet
    rw [Code.functions] at unmet
    rw [Hoist.code]
    refine .bind (block_marks (yes_ih lawful.2.1.1) current state unmet.left.left) ?_
    rintro _ first ⟨rfl, yes_marks⟩
    refine .bind (block_marks (no_ih lawful.2.1.2) current first (unmet.left.right yes_marks)) ?_
    rintro _ second ⟨rfl, no_marks⟩
    have arms := yes_marks.trans no_marks
    refine .bind (ih lawful.2.2 current second (unmet.right arms)) ?_
    rintro _ later ⟨rfl, marks⟩
    refine .pure ⟨rfl, (arms.trans marks).congr fun name => ?_⟩
    simp only [Code.Calls, Code.strip, Block.strip, Code.instrs, Code.blockInstrs, mem_cons, mem_append]
    constructor
    · rintro ((⟨instr, there, call⟩ | ⟨instr, there, call⟩) | ⟨instr, there, call⟩)
      · exact ⟨instr, .inr (.inl (.inl there)), call⟩
      · exact ⟨instr, .inr (.inl (.inr there)), call⟩
      · exact ⟨instr, .inr (.inr there), call⟩
    · rintro ⟨instr, rfl | (there | there) | there, call⟩
      · obtain ⟨_, _, same, _⟩ := call
        cases same
      · exact .inl (.inl ⟨instr, there, call⟩)
      · exact .inl (.inr ⟨instr, there, call⟩)
      · exact .inr ⟨instr, there, call⟩
  | @function _ own _ _ _ body _ _ body_ih ih =>
    simp only [Code.instrs, Code.blockInstrs, forall_mem_cons, forall_mem_append] at lawful
    intro current state unmet
    rw [Code.functions, Code.blockFunctions] at unmet
    rw [Hoist.code]
    refine .bind (block_marks (body_ih lawful.2.1) (some own) state unmet.body) ?_
    rintro _ first ⟨rfl, body_marks⟩
    rw [append_cons] at unmet
    refine .bind (show Gives _ first fun _ second => Marks captures current _ (fun _ => False) state second from
      .modify (body_marks.leave rfl unmet.left)) fun _ second gone => ?_
    refine .bind (ih lawful.2.2 current second (unmet.right gone)) ?_
    rintro _ later ⟨rfl, marks⟩
    have all := gone.trans marks
    rw [← append_cons] at all
    rw [Code.strip]
    cases captures.closures.find? own with
    | some _ =>
      refine .pure ⟨rfl, all.congr fun name => ?_⟩
      rw [Code.calls_cons, calls_op]
      refine or_congr_left ⟨False.elim, ?_⟩
      rintro ⟨_, _, ⟨⟩, _⟩
    | none => exact .pure ⟨rfl, all.congr fun name => or_iff_right not_false⟩

end Hoist

theorem NameMap.entries_foldl (entries : List (String × α)) (map : NameMap α)
    (distinct : (entries.map Prod.fst ++ map.keys).Nodup) :
    (entries.foldl (fun map entry => map.insert entry.1 entry.2) map).entries = entries.reverse ++ map.entries := by
  induction entries generalizing map with
  | nil => rfl
  | cons entry rest ih =>
    rw [map_cons, cons_append, nodup_cons] at distinct
    have fresh : (map.insert entry.1 entry.2).entries = entry :: map.entries := by
      refine congrArg (entry :: ·) (filter_eq_self.mpr fun _ mem => bne_iff_ne.mpr fun same => ?_)
      exact distinct.1 (mem_append_right _ (same ▸ mem_map_of_mem mem))
    have later : (rest.map Prod.fst ++ (map.insert entry.1 entry.2).keys).Nodup := by
      rw [keys, fresh, map_cons, nodup_middle]
      exact nodup_cons.mpr distinct
    rw [foldl_cons, ih _ later, fresh, reverse_cons, append_assoc, singleton_append]

theorem NameMap.keys_ofList {entries : List (String × α)} (distinct : (entries.map Prod.fst).Nodup) :
    (ofList entries).keys = (entries.map Prod.fst).reverse := by
  rw [keys, ofList, entries_foldl _ _ (by simpa [keys, empty] using distinct)]
  simp [empty]

/-- The program that is made of a module when its functions go to the top level. -/
structure Converted.Hoists (program : Converted) (module : Module) (captures : Captures) : Prop where
  entry : Block.Becomes captures module.entry program.entry
  closures : program.closures = captures.closures
  distinct : program.toplevel.keys.Nodup
  once : program.toplevel.keys.Perm
    (((Code.blockInstrs module.entry).filter fun instr => instr.value.isFunction).map Instr.name)
  moved {instr : Instr Block} (there : instr ∈ Code.blockInstrs module.entry) {params : List String} {body : Block}
    {recursive : Bool} (value : instr.value = .function params body recursive) :
    ∃ function, program.toplevel.find? instr.name = some function ∧ function.params = params ∧
      function.span = instr.span ∧ Block.Becomes captures body function.body ∧
      (function.recursive = true ↔ function.body.body.Calls instr.name)
  flat : ∀ instr ∈ Code.blockInstrs program.entry, instr.value.isFunction = false
  bodies {name : String} {function : Toplevel} (found : program.toplevel.find? name = some function) :
    ∀ instr ∈ Code.blockInstrs function.body, instr.value.isFunction = false

namespace Hoist

variable {former functions : List (Instr Block)}

theorem Moved.exists_entry {function : Instr Block} (moved : Moved captures instr function) :
    ∃ params body recursive entry, instr.value = .function params body recursive ∧
      function.toplevel? = some (instr.name, entry) ∧ entry.params = params ∧ entry.span = instr.span ∧
      entry.body = body.strip captures ∧ (entry.recursive = true ↔ entry.body.body.Calls instr.name) := by
  obtain ⟨params, body, recursive, again, value, value', calls⟩ := moved.value
  refine ⟨params, body, recursive, ⟨params, body.strip captures, again, instr.span⟩, value, ?_, rfl, rfl, rfl, calls⟩
  rw [Instr.toplevel?, value', moved.name, moved.span]

theorem map_fst_entries (moved : Forall₂ (Moved captures) former functions) :
    (functions.filterMap Instr.toplevel?).map Prod.fst = former.map Instr.name := by
  induction moved with
  | nil => rfl
  | cons first _ ih =>
    obtain ⟨_, _, _, _, _, made, _⟩ := first.exists_entry
    rw [filterMap_cons_some made, map_cons, map_cons, ih]

theorem exists_moved (moved : Forall₂ (Moved captures) former functions) (there : instr ∈ former) :
    ∃ function ∈ functions, Moved captures instr function := by
  induction moved with
  | nil => cases there
  | cons first _ ih =>
    rcases mem_cons.mp there with rfl | there
    · exact ⟨_, .head _, first⟩
    · obtain ⟨function, later, moved⟩ := ih there
      exact ⟨function, mem_cons_of_mem _ later, moved⟩

end Hoist

namespace Module.WellFormed

variable {module : Module}

section

variable (formed : module.WellFormed)
include formed

theorem unmet : Hoist.Unmet none (Code.functions module.entry.body) {} :=
  ⟨by rw [Code.map_name_functions]; exact formed.names_nodup, nofun, nofun⟩

theorem exists_hoisted :
    ∃ functions, module.converted.toplevel = .ofList (functions.filterMap Instr.toplevel?) ∧
      Forall₂ (Hoist.Moved module.entry.captures) (Code.functions module.entry.body) functions := by
  obtain ⟨⟨label, body⟩, _⟩ := module
  obtain ⟨_, marks⟩ : Gives (Hoist.block (Block.mk label body).captures none (.mk label body)) {} fun _ later =>
      _ ∧ Hoist.Marks _ none (Code.functions body) _ {} later :=
    Hoist.block_marks (Hoist.code_marks _ body formed.lawful) none {} formed.unmet
  obtain ⟨functions, grown, moved⟩ := marks.hoisted
  refine ⟨functions, ?_, moved⟩
  exact congrArg (fun hoisted => NameMap.ofList (hoisted.filterMap Instr.toplevel?)) grown

theorem becomes_strip {body : Block}
    (inside : ∀ instr ∈ Code.instrs body.body, instr ∈ Code.instrs module.entry.body) :
    Block.Becomes module.entry.captures body (body.strip module.entry.captures) := by
  obtain ⟨_, body⟩ := body
  exact .mk (Code.becomes_strip formed.exact inside formed.lawful)

theorem converted_hoists : module.converted.Hoists module module.entry.captures := by
  obtain ⟨functions, made, moved⟩ := formed.exists_hoisted
  have names := Hoist.map_fst_entries moved
  have distinct := formed.unmet.distinct
  have entry : module.converted.entry = module.entry.strip module.entry.captures :=
    (Block.convert_spec module.entry module.entry.captures).1
  have keys : module.converted.toplevel.keys = ((Code.functions module.entry.body).map Instr.name).reverse := by
    rw [made, NameMap.keys_ofList (by rw [names]; exact distinct), names]
  have flat (body : Block) : ∀ instr ∈ Code.blockInstrs (body.strip module.entry.captures),
      instr.value.isFunction = false := by
    rw [Code.blockInstrs_eq, body_strip]
    exact Code.flat_strip _ _
  constructor
  · rw [entry]
    exact formed.becomes_strip fun _ there => there
  · rfl
  · rw [keys, nodup_reverse]
    exact distinct
  · rw [keys, Code.blockInstrs_eq]
    exact (reverse_perm _).trans ((Code.functions_perm _).map _)
  · intro instr there params body recursive value
    rw [Code.blockInstrs_eq] at there
    have former : instr ∈ Code.functions module.entry.body := by
      rw [(Code.functions_perm _).mem_iff, mem_filter, value]
      exact ⟨there, rfl⟩
    obtain ⟨function, hoisted, here⟩ := Hoist.exists_moved moved former
    obtain ⟨_, _, _, entry, value', listed, params_eq, span_eq, body_eq, again⟩ := here.exists_entry
    rw [value] at value'
    cases value'
    refine ⟨entry, ?_, params_eq, span_eq, ?_, again⟩
    · rw [made, NameMap.find?_ofList (by rw [names]; exact distinct)]
      exact mem_filterMap.mpr ⟨function, hoisted, listed⟩
    · rw [body_eq]
      refine formed.becomes_strip fun _ deep => Code.mem_instrs_of_block there ?_ deep
      rw [value]
      exact mem_singleton_self body
  · rw [entry]
    exact flat _
  · intro name function found
    obtain ⟨_, _, _, _, body⟩ := formed.definition_of_find? found
    rw [body]
    exact flat _

end

end Module.WellFormed

/-- Conversion takes every function to the top level once and leaves all else where it is. -/
theorem Surface.convert_hoists {program : Surface} (lexed : program.Lexed) {resolved : Resolved}
    {typed : Typed} {settings : Settings} (resolves : program.resolve = .ok resolved)
    (checks : resolved.check settings = .ok typed) :
    ∃ module, typed.lower = .ok module ∧
      module.forward.converted.Hoists module.forward module.forward.entry.captures := by
  obtain ⟨module, lowered, raw⟩ := exists_lowered lexed resolves checks
  exact ⟨module, lowered, raw.wellFormed_forward.converted_hoists⟩

/-- Of the three functions only `add` calls itself. -/
theorem Surface.convert_hoists_twoClosures : twoClosures.Lexed ∧
    ∃ resolved typed module, twoClosures.resolve = .ok resolved ∧
      resolved.check { seedBuiltins := false } = .ok typed ∧ typed.lower = .ok module ∧
      module.forward.converted.toplevel.sorted.map (fun entry => entry.2.recursive) = [true, false, false] ∧
      module.forward.converted.Hoists module.forward module.forward.entry.captures := by
  have lexed : twoClosures.Lexed := by decide +kernel
  obtain ⟨resolved, typed, resolves, checks, test⟩ :=
    exists_of_accepted twoClosures { seedBuiltins := false } fun _ typed => typed.lowersTo fun module =>
      decide (module.forward.converted.toplevel.sorted.map (fun entry => entry.2.recursive) =
        [true, false, false])
  obtain ⟨module, lowered, hoists⟩ := convert_hoists lexed resolves checks
  rw [Typed.lowersTo_eq lowered, decide_eq_true_eq] at test
  exact ⟨lexed, resolved, typed, module, resolves, checks, lowered, test, hoists⟩

end MiddleEnd
