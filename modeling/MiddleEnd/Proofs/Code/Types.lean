import Mathlib.Data.List.Forall2
import MiddleEnd.Proofs.Code.Basic
import MiddleEnd.Proofs.Typing.Rules

/-! Types of code. An instruction reads its operands at instances of their types, and what it computes
then has the type of its own name. -/

namespace MiddleEnd

open List

variable {type : Ty} {table : TypeTable}

namespace Ty

def HasInstance (scheme type : Ty) : Prop := ∃ change, type = scheme.substGenerics change

theorem HasInstance.refl (type : Ty) : type.HasInstance type :=
  ⟨.generic, (subst_self type).symm⟩

theorem HasInstance.trans {scheme middle : Ty} (first : scheme.HasInstance middle)
    (second : middle.HasInstance type) : scheme.HasInstance type := by
  obtain ⟨change, rfl⟩ := first
  obtain ⟨change', rfl⟩ := second
  exact ⟨fun n => (change n).substGenerics change', subst_subst ..⟩

end Ty

namespace TypeTable

def Reads (table : TypeTable) (name : String) (type : Ty) : Prop :=
  ∃ scheme, table.find? name = some scheme ∧ scheme.HasInstance type

variable {name : String} {type' : Ty}

theorem Reads.of_find? (found : table.find? name = some type) : table.Reads name type :=
  ⟨type, found, .refl type⟩

theorem Reads.instance (reads : table.Reads name type) (more : type.HasInstance type') :
    table.Reads name type' := by
  obtain ⟨scheme, found, less⟩ := reads
  exact ⟨scheme, found, less.trans more⟩

end TypeTable

inductive Op.HasType (externals : String → Option Ty) (table : TypeTable) : Op → Ty → Prop where
  | const (value : Literal) : HasType externals table (.const value) value.ty
  | unary {op : UnaryOp} {operand : String} (reads : table.Reads operand op.operand) :
      HasType externals table (.unary op operand) op.operand
  | binary {op : BinaryOp} {lhs rhs : String} {type : Ty} (known : op.operand? = .some type)
      (lhs_reads : table.Reads lhs type) (rhs_reads : table.Reads rhs type) :
      HasType externals table (.binary op lhs rhs) type
  | compare {op : BinaryOp} {lhs rhs : String} {type : Ty} (unknown : op.operand? = .none)
      (lhs_reads : table.Reads lhs type) (rhs_reads : table.Reads rhs type)
      (compares : op.Compares type) : HasType externals table (.binary op lhs rhs) .bool
  | ref {name : String} {type : Ty} (reads : table.Reads name type) :
      HasType externals table (.ref name) type
  | external {name : String} {scheme type : Ty} (declared : externals name = .some scheme)
      (fits : scheme.HasInstance type) : HasType externals table (.external name) type
  | call {kind : CallKind} {callee : String} {args : List String} {types : List Ty} {type : Ty}
      (inside : kind ≠ .external) (callee_reads : table.Reads callee (.function types type))
      (args_read : List.Forall₂ table.Reads args types) :
      HasType externals table (.call kind callee args) type
  | callExternal {callee : String} {args : List String} {scheme type : Ty} {types : List Ty}
      (declared : externals callee = .some scheme) (fits : scheme.HasInstance (.function types type))
      (args_read : List.Forall₂ table.Reads args types) :
      HasType externals table (.call .external callee args) type
  | tuple {elements : List String} {types : List Ty} (read : List.Forall₂ table.Reads elements types) :
      HasType externals table (.tuple elements) (.tuple types)
  | field {source : String} {index : Nat} {types : List Ty} {type : Ty}
      (reads : table.Reads source (.tuple types)) (here : types[index]? = .some type) :
      HasType externals table (.field source index) type
  | arrayMake {size element : String} {type : Ty} (size_reads : table.Reads size .int)
      (element_reads : table.Reads element type) :
      HasType externals table (.arrayMake size element) (.array type)
  | arrayLit {elements : List String} {type : Ty} (read : ∀ element ∈ elements, table.Reads element type) :
      HasType externals table (.arrayLit elements) (.array type)
  | arrayGet {array index : String} {type : Ty} (array_reads : table.Reads array (.array type))
      (index_reads : table.Reads index .int) : HasType externals table (.arrayGet array index) type
  | arraySet {array index value : String} {type : Ty} (array_reads : table.Reads array (.array type))
      (index_reads : table.Reads index .int) (value_reads : table.Reads value type) :
      HasType externals table (.arraySet array index value) .unit
  | arrayLen {array : String} {type : Ty} (reads : table.Reads array (.array type)) :
      HasType externals table (.arrayLen array) .int
  | some {element : String} {type : Ty} (reads : table.Reads element type) :
      HasType externals table (.some element) (.option type)
  | none (type : Ty) : HasType externals table .none (.option type)
  | isSome {option : String} {type : Ty} (reads : table.Reads option (.option type)) :
      HasType externals table (.isSome option) .bool
  | unwrap {option : String} {type : Ty} (reads : table.Reads option (.option type)) :
      HasType externals table (.unwrap option) type
  /-- A closure has the type of its function. -/
  | closure {captures : List String} {function : String} {type : Ty}
      (captured : ∀ capture ∈ captures, ∃ type, table.find? capture = .some type)
      (same : table.find? function = .some type) : HasType externals table (.closure captures function) type

/-- A block whose last instruction can be read at a type. -/
def Block.Returns (table : TypeTable) (block : Block) (type : Ty) : Prop :=
  ∃ front last, block.body = front ++ [last] ∧ table.Reads last.name type

def Value.HasType (externals : String → Option Ty) (table : TypeTable) : Value Block → Ty → Prop
  | .op here, type => here.HasType externals table type
  | .branch test yes no, type =>
    table.Reads test .bool ∧ yes.Returns table type ∧ no.Returns table type
  | .function params body _, type =>
    ∃ types result, type = .function types result ∧
      List.Forall₂ (fun param type => table.find? param = some type) params types ∧
      body.Returns table result

def Instr.HasType (externals : String → Option Ty) (table : TypeTable) (instr : Instr Block) : Prop :=
  ∃ type, table.find? instr.name = some type ∧ instr.value.HasType externals table type

/-- Code whose instructions, inner blocks included, follow the typing rules. -/
def Code.HasTypes (externals : String → Option Ty) (table : TypeTable) (code : Code) : Prop :=
  ∀ instr ∈ instrs code, instr.HasType externals table

/-- A value of a type whose inner blocks follow the typing rules. -/
def Value.HasTypes (externals : String → Option Ty) (table : TypeTable) (value : Value Block) (type : Ty) :
    Prop :=
  value.HasType externals table type ∧ ∀ block ∈ value.blocks, Code.HasTypes externals table block.body

section

variable {externals : String → Option Ty} {table' : TypeTable}

namespace Code

@[simp] theorem hasTypes_nil : HasTypes externals table [] := forall_mem_nil _

theorem hasTypes_append {front back : Code} :
    HasTypes externals table (front ++ back) ↔
      HasTypes externals table front ∧ HasTypes externals table back := by
  rw [HasTypes, instrs_append, forall_mem_append, HasTypes, HasTypes]

theorem hasTypes_cons {instr : Instr Block} {rest : Code} :
    HasTypes externals table (instr :: rest) ↔
      (∃ type, table.find? instr.name = some type ∧ instr.value.HasTypes externals table type) ∧
        HasTypes externals table rest := by
  simp only [HasTypes, instrs_cons, forall_mem_cons, forall_mem_append, forall_mem_flatMap,
    blockInstrs_eq, Value.HasTypes, Instr.HasType]
  constructor
  · rintro ⟨⟨type, found, typed⟩, inner, rest⟩
    exact ⟨⟨type, found, typed, inner⟩, rest⟩
  · rintro ⟨⟨type, found, typed, inner⟩, rest⟩
    exact ⟨⟨type, found, typed⟩, inner, rest⟩

end Code

namespace Op.HasType

variable {op : Op} {change : String → String}

theorem reads_map {names : List String} {types : List Ty} (read : Forall₂ table.Reads names types)
    (keeps : ∀ name ∈ names, ∀ type, table.Reads name type → table'.Reads (change name) type) :
    Forall₂ table'.Reads (names.map change) types := by
  induction read with
  | nil => exact .nil
  | cons first _ ih =>
    rw [forall_mem_cons] at keeps
    exact .cons (keeps.1 _ first) (ih keeps.2)

theorem mapOperands (typed : op.HasType externals table type)
    (open_op : ∀ captures function, op ≠ .closure captures function)
    (keeps : ∀ operand ∈ op.operands, ∀ type, table.Reads operand type →
      table'.Reads (change operand) type) :
    (op.mapOperands change).HasType externals table' type := by
  have keep {operand : String} {type : Ty} (reads : table.Reads operand type)
      (mem : operand ∈ op.operands := by simp [operands]) : table'.Reads (change operand) type :=
    keeps operand mem type reads
  cases typed with
  | const value => exact .const value
  | unary reads => exact .unary (keep reads)
  | binary known lhs_reads rhs_reads =>
    exact .binary known (keep lhs_reads) (keep rhs_reads)
  | compare unknown lhs_reads rhs_reads compares =>
    exact .compare unknown (keep lhs_reads) (keep rhs_reads) compares
  | ref reads => exact .ref (keep reads)
  | external declared fits => exact .external declared fits
  | call inside callee_reads args_read =>
    rw [Op.mapOperands, if_neg inside]
    simp only [operands, if_neg inside] at keeps
    exact .call inside (keeps _ (.head _) _ callee_reads)
      (reads_map args_read fun arg mem => keeps arg (.tail _ mem))
  | callExternal declared fits args_read => exact .callExternal declared fits (reads_map args_read keeps)
  | tuple read => exact .tuple (reads_map read keeps)
  | field reads here => exact .field (keep reads) here
  | arrayMake size_reads element_reads =>
    exact .arrayMake (keep size_reads) (keep element_reads)
  | arrayLit read =>
    refine .arrayLit fun _ mem => ?_
    obtain ⟨name, there, rfl⟩ := mem_map.mp mem
    exact keep (read name there) there
  | arrayGet array_reads index_reads =>
    exact .arrayGet (keep array_reads) (keep index_reads)
  | arraySet array_reads index_reads value_reads =>
    exact .arraySet (keep array_reads) (keep index_reads) (keep value_reads)
  | arrayLen reads => exact .arrayLen (keep reads)
  | some reads => exact .some (keep reads)
  | none type => exact .none type
  | isSome reads => exact .isSome (keep reads)
  | unwrap reads => exact .unwrap (keep reads)
  | closure _ _ => exact absurd rfl (open_op _ _)

end Op.HasType

end

end MiddleEnd
