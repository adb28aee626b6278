import Mathlib.Data.List.Perm.Basic
import MiddleEnd.Code.Capture

/-! Code by its instructions: induction, what the instructions of all blocks define and read, and
scope. -/

namespace MiddleEnd

open List

variable {role : Role} {recursive : Bool} {body : Code} {value : Value Block} {motive : Code → Prop}
  {inside : Instr Block} {name label : String} {block : Block} {instr : Instr Block} {code rest : Code}
  {scope : List String} {id : Nat} {span : Span}

inductive Role where
  | value
  | callee
  | result
  deriving DecidableEq

namespace Op

def callees : Op → List String
  | call kind callee _ => if kind = .external then [] else [callee]
  | _ => []

theorem mem_operands {op : Op} : name ∈ op.operands ↔ name ∈ op.callees ∨ name ∈ op.values := by
  cases op with
  | call kind _ _ =>
    by_cases external : kind = .external <;> simp [operands, callees, values, external]
  | _ => simp [operands, callees, values]

end Op

namespace Block

def result? (block : Block) : Option String := block.body.getLast?.map Instr.name

theorem mem_of_result? (result : block.result? = some name) : name ∈ block.body.map Instr.name := by
  obtain ⟨_, found, rfl⟩ := Option.map_eq_some_iff.mp result
  exact mem_map_of_mem (mem_of_getLast? found)

end Block

namespace Value

def params {β : Type} : Value β → List String
  | function params _ _ => params
  | _ => []

def uses : Value Block → List (String × Role)
  | op here => here.callees.map (·, .callee) ++ here.values.map (·, .value)
  | branch test yes no =>
    (test, .value) :: (yes.result?.toList ++ no.result?.toList).map (·, .result)
  | function _ body _ => body.result?.toList.map (·, .result)

theorem mem_operands_of_use {op : Op} (use : (name, role) ∈ uses (.op op)) : name ∈ op.operands := by
  simp only [uses, mem_append, mem_map, Prod.mk.injEq] at use
  rw [Op.mem_operands]
  rcases use with ⟨_, mem, rfl, _⟩ | ⟨_, mem, rfl, _⟩
  · exact .inl mem
  · exact .inr mem

theorem exists_block_of_result (use : (name, .result) ∈ value.uses) :
    ∃ block ∈ value.blocks, block.result? = some name := by
  cases value with
  | op _ => simp [uses] at use
  | branch _ yes no =>
    simp only [uses, mem_cons, Prod.mk.injEq, reduceCtorEq, and_false, false_or, mem_map,
      mem_append, Option.mem_toList, and_true, exists_eq_right] at use
    rcases use with use | use
    · exact ⟨yes, by simp [blocks], use⟩
    · exact ⟨no, by simp [blocks], use⟩
  | function _ body _ =>
    simp only [uses, mem_map, Option.mem_toList, Prod.mk.injEq, and_true, exists_eq_right] at use
    exact ⟨body, by simp [blocks], use⟩

theorem exists_role (read : name ∈ value.operands) :
    (name, .callee) ∈ value.uses ∨ (name, .value) ∈ value.uses := by
  cases value with
  | op _ => simpa [uses] using Op.mem_operands.mp read
  | branch test _ _ =>
    obtain rfl : name = test := by simpa [operands] using read
    exact .inr (.head _)
  | function => cases read

end Value

namespace Instr

def defs (instr : Instr Block) : List String := instr.name :: instr.value.params

end Instr

namespace Code

@[elab_as_elim]
theorem induction (nil : motive [])
    (op : ∀ {id name span op rest}, motive rest → motive (⟨id, name, span, .op op⟩ :: rest))
    (branch : ∀ {id name span test label yes label' no rest}, motive yes → motive no →
      motive rest → motive (⟨id, name, span, .branch test (.mk label yes) (.mk label' no)⟩ :: rest))
    (function : ∀ {id name span params label body recursive rest}, motive body → motive rest →
      motive (⟨id, name, span, .function params (.mk label body) recursive⟩ :: rest)) (code : Code) :
    motive code :=
  @Block.rec_1 (fun block => motive block.body) motive
    (fun instr => ∀ rest, motive rest → motive (instr :: rest))
    (fun value => ∀ id name span rest, motive rest → motive (⟨id, name, span, value⟩ :: rest))
    (fun _ _ body => body) nil (fun _ rest instr rest_holds => instr rest rest_holds)
    (fun id name span _ value rest rest_holds => value id name span rest rest_holds)
    (fun _ _ _ _ _ rest_holds => op rest_holds)
    (fun _ (.mk ..) (.mk ..) yes_holds no_holds _ _ _ _ rest_holds => branch yes_holds no_holds rest_holds)
    (fun _ (.mk ..) _ body_holds _ _ _ _ rest_holds => function body_holds rest_holds) code

@[elab_as_elim]
theorem nested_induction (nil : motive [])
    (cons : ∀ instr rest, (∀ block ∈ instr.value.blocks, motive block.body) → motive rest →
      motive (instr :: rest)) (code : Code) : motive code := by
  induction code using Code.induction with
  | nil => exact nil
  | op ih => exact cons _ _ nofun ih
  | branch yes_ih no_ih ih =>
    exact cons _ _ (forall_mem_cons.mpr ⟨yes_ih, forall_mem_singleton.mpr no_ih⟩) ih
  | function body_ih ih =>
    exact cons _ _ (forall_mem_singleton.mpr body_ih) ih

mutual
def blockInstrs : Block → List (Instr Block)
  | .mk _ body => instrs body
def instrs : List (Instr Block) → List (Instr Block)
  | [] => []
  | ⟨id, name, span, .op op⟩ :: rest => ⟨id, name, span, .op op⟩ :: instrs rest
  | ⟨id, name, span, .branch test yes no⟩ :: rest =>
    ⟨id, name, span, .branch test yes no⟩ :: (blockInstrs yes ++ blockInstrs no ++ instrs rest)
  | ⟨id, name, span, .function params body recursive⟩ :: rest =>
    ⟨id, name, span, .function params body recursive⟩ :: (blockInstrs body ++ instrs rest)
end

theorem blockInstrs_eq (block : Block) : blockInstrs block = instrs block.body := by
  cases block
  rfl

theorem instrs_cons (instr : Instr Block) (rest : Code) :
    instrs (instr :: rest) = instr :: (instr.value.blocks.flatMap blockInstrs ++ instrs rest) := by
  obtain ⟨id, _, _, value⟩ := instr
  cases value <;> simp [instrs, Value.blocks]

theorem instrs_append (front back : Code) : instrs (front ++ back) = instrs front ++ instrs back := by
  induction front with
  | nil => rfl
  | cons _ _ ih => simp [instrs_cons, ih]

def inner (code : Code) : List (Instr Block) :=
  code.flatMap fun instr => instr.value.blocks.flatMap blockInstrs

theorem instrs_perm (code : Code) : (instrs code).Perm (code ++ inner code) := by
  induction code with
  | nil => exact .refl _
  | cons _ _ ih =>
    rw [instrs_cons, cons_append, inner, flatMap_cons]
    exact .cons _ ((ih.append_left _).trans (perm_append_comm_assoc ..))

theorem mem_instrs (mem : instr ∈ code) : instr ∈ instrs code := by
  obtain ⟨_, _, rfl⟩ := append_of_mem mem
  simp [instrs_append, instrs_cons]

def defs (code : Code) : List String := (instrs code).flatMap Instr.defs

def uses (code : Code) : List (String × Role) := (instrs code).flatMap fun instr => instr.value.uses

def ids (code : Code) : List Nat := (instrs code).map Instr.id

theorem defs_append (front back : Code) : defs (front ++ back) = defs front ++ defs back := by
  simp [defs, instrs_append]

theorem uses_append (front back : Code) : uses (front ++ back) = uses front ++ uses back := by
  simp [uses, instrs_append]

theorem name_mem_defs (mem : instr ∈ code) : instr.name ∈ defs code :=
  mem_flatMap.mpr ⟨instr, mem_instrs mem, .head _⟩

theorem mem_instrs_of_block (mem : instr ∈ instrs code) (here : block ∈ instr.value.blocks)
    (there : inside ∈ instrs block.body) : inside ∈ instrs code := by
  induction code using Code.nested_induction with
  | nil => cases mem
  | cons _ _ blocks_ih ih =>
    rw [instrs_cons, mem_cons, mem_append, mem_flatMap] at mem ⊢
    rcases mem with rfl | ⟨outer, own, mem⟩ | mem
    · exact .inr (.inl ⟨block, here, blockInstrs_eq block ▸ there⟩)
    · rw [blockInstrs_eq] at mem
      exact .inr (.inl ⟨outer, own, blockInstrs_eq outer ▸ blocks_ih outer own mem⟩)
    · exact .inr (.inr (ih mem))

theorem mem_inner_of_block (mem : instr ∈ instrs code) (here : block ∈ instr.value.blocks)
    (there : inside ∈ instrs block.body) : inside ∈ inner code := by
  rcases mem_append.mp ((instrs_perm code).mem_iff.mp mem) with top | deep
  · refine mem_flatMap.mpr ⟨instr, top, mem_flatMap.mpr ⟨block, here, ?_⟩⟩
    rwa [blockInstrs_eq]
  · obtain ⟨top, top_member, deep⟩ := mem_flatMap.mp deep
    obtain ⟨outer, outer_here, deep⟩ := mem_flatMap.mp deep
    refine mem_flatMap.mpr ⟨top, top_member, mem_flatMap.mpr ⟨outer, outer_here, ?_⟩⟩
    rw [blockInstrs_eq] at deep ⊢
    exact mem_instrs_of_block deep here there

mutual
def BlockInScope (scope : List String) : Block → Prop
  | .mk _ body => InScope scope body
def InScope (scope : List String) : List (Instr Block) → Prop
  | [] => True
  | ⟨_, name, _, .op op⟩ :: rest =>
    (∀ operand ∈ op.operands, operand ∈ scope) ∧ InScope (name :: scope) rest
  | ⟨_, name, _, .branch test yes no⟩ :: rest =>
    test ∈ scope ∧ BlockInScope scope yes ∧ BlockInScope scope no ∧ InScope (name :: scope) rest
  | ⟨_, name, _, .function params body _⟩ :: rest =>
    BlockInScope (name :: params ++ scope) body ∧ InScope (name :: scope) rest
end

theorem InScope.weaken {scope' : List String} (fits : InScope scope code) (subset : scope ⊆ scope') :
    InScope scope' code := by
  induction code using Code.induction generalizing scope scope' with
  | nil => exact True.intro
  | op ih =>
    exact ⟨fun operand read => subset (fits.1 operand read), ih fits.2 (cons_subset_cons _ subset)⟩
  | branch yes_ih no_ih ih =>
    obtain ⟨test_fits, yes_fits, no_fits, fits⟩ := fits
    exact ⟨subset test_fits, yes_ih yes_fits subset, no_ih no_fits subset,
      ih fits (cons_subset_cons _ subset)⟩
  | @function _ name _ _ _ _ _ _ body_ih ih =>
    refine ⟨body_ih fits.1 fun name mem => ?_, ih fits.2 (cons_subset_cons _ subset)⟩
    rcases mem_append.mp mem with own | around
    · exact mem_append_left _ own
    · exact mem_append_right _ (subset around)

theorem inScope_append {front back : Code} :
    InScope scope (front ++ back) ↔
      InScope scope front ∧ InScope (front.map Instr.name ++ scope) back := by
  induction front generalizing scope with
  | nil => exact ⟨fun fits => ⟨trivial, fits⟩, And.right⟩
  | cons instr front ih =>
    have same : InScope (instr.name :: (front.map Instr.name ++ scope)) back ↔
        InScope (front.map Instr.name ++ instr.name :: scope) back := by
      constructor <;> intro fits <;> refine fits.weaken fun name mem => ?_ <;>
        simp only [mem_cons, mem_append] at mem ⊢ <;> grind
    obtain ⟨id, name, _, value⟩ := instr
    cases value <;> simp only [cons_append, map_cons, InScope, ih, same, and_assoc]

@[simp] theorem defs_op {op : Op} : defs (⟨id, name, span, .op op⟩ :: rest) = name :: defs rest := rfl

@[simp] theorem defs_branch {test label' : String} {yes no : Code} :
    defs (⟨id, name, span, .branch test (.mk label yes) (.mk label' no)⟩ :: rest) =
      name :: (defs yes ++ defs no ++ defs rest) := by
  simp [defs, instrs, blockInstrs, Instr.defs, Value.params]

@[simp] theorem defs_function {params : List String} :
    defs (⟨id, name, span, .function params (.mk label body) recursive⟩ :: rest) =
      name :: params ++ (defs body ++ defs rest) := by
  simp [defs, instrs, blockInstrs, Instr.defs, Value.params]

@[simp] theorem uses_op {op : Op} :
    uses (⟨id, name, span, .op op⟩ :: rest) = Value.uses (.op op) ++ uses rest := rfl

@[simp] theorem uses_branch {test label' : String} {yes no : Code} :
    uses (⟨id, name, span, .branch test (.mk label yes) (.mk label' no)⟩ :: rest) =
      Value.uses (.branch test (.mk label yes) (.mk label' no)) ++
        (uses yes ++ uses no ++ uses rest) := by
  simp [uses, instrs, blockInstrs]

@[simp] theorem uses_function {params : List String} :
    uses (⟨id, name, span, .function params (.mk label body) recursive⟩ :: rest) =
      Value.uses (.function params (.mk label body) recursive) ++ (uses body ++ uses rest) := by
  simp [uses, instrs, blockInstrs]

theorem mem_defs_of_result? (result : Block.result? (.mk label code) = some name) :
    name ∈ defs code := by
  obtain ⟨_, mem, rfl⟩ := mem_map.mp (Block.mem_of_result? result)
  exact name_mem_defs mem

theorem InScope.mem_of_use (fits : InScope scope code) (use : (name, role) ∈ uses code) :
    name ∈ scope ∨ name ∈ defs code := by
  induction code using Code.induction generalizing scope with
  | nil => cases use
  | op ih =>
    rw [uses_op, mem_append] at use
    rw [defs_op, mem_cons]
    rcases use with use | use
    · exact .inl (fits.1 name (Value.mem_operands_of_use use))
    · rcases ih fits.2 use with mem | mem
      · exact (mem_cons.mp mem).elim (.inr ∘ .inl) .inl
      · exact .inr (.inr mem)
  | branch yes_ih no_ih ih =>
    obtain ⟨test_fits, yes_fits, no_fits, fits⟩ := fits
    simp only [uses_branch, mem_append, Value.uses, mem_cons, mem_map,
      Option.mem_toList, Prod.mk.injEq] at use
    simp only [defs_branch, mem_cons, mem_append]
    rcases use with (⟨rfl, _⟩ | ⟨_, result | result, rfl, _⟩) | (use | use) | use
    · exact .inl test_fits
    · exact .inr (.inr (.inl (.inl (mem_defs_of_result? result))))
    · exact .inr (.inr (.inl (.inr (mem_defs_of_result? result))))
    · exact (yes_ih yes_fits use).imp_right (.inr ∘ .inl ∘ .inl)
    · exact (no_ih no_fits use).imp_right (.inr ∘ .inl ∘ .inr)
    · rcases ih fits use with mem | mem
      · exact (mem_cons.mp mem).elim (.inr ∘ .inl) .inl
      · exact .inr (.inr (.inr mem))
  | @function _ own _ _ _ _ _ _ body_ih ih =>
    simp only [uses_function, mem_append, Value.uses, mem_map, Option.mem_toList, Prod.mk.injEq] at use
    simp only [defs_function, cons_append, mem_cons, mem_append]
    rcases use with ⟨_, result, rfl, _⟩ | use | use
    · exact .inr (.inr (.inr (.inl (mem_defs_of_result? result))))
    · rcases body_ih fits.1 use with mem | mem
      · simp only [cons_append, mem_cons, mem_append] at mem
        rcases mem with own | param | around
        · exact .inr (.inl own)
        · exact .inr (.inr (.inl param))
        · exact .inl around
      · exact .inr (.inr (.inr (.inl mem)))
    · rcases ih fits.2 use with mem | mem
      · exact (mem_cons.mp mem).elim (.inr ∘ .inl) .inl
      · exact .inr (.inr (.inr (.inr mem)))

theorem mem_inner_of_result (use : (name, .result) ∈ uses code) :
    name ∈ (inner code).flatMap Instr.defs := by
  obtain ⟨_, mem, use⟩ := mem_flatMap.mp use
  obtain ⟨_, here, result⟩ := Value.exists_block_of_result use
  obtain ⟨last, there, rfl⟩ := mem_map.mp (Block.mem_of_result? result)
  have deep := mem_inner_of_block mem here (mem_instrs there)
  exact mem_flatMap.mpr ⟨last, deep, .head _⟩

theorem not_mem_inner (nodup : (defs code).Nodup) (mem : instr ∈ code) :
    instr.name ∉ (inner code).flatMap Instr.defs := by
  have split := ((instrs_perm code).flatMap_right Instr.defs).nodup_iff.mp nodup
  rw [flatMap_append, nodup_append] at split
  intro deep
  exact split.2.2 _ (mem_flatMap.mpr ⟨instr, mem, .head _⟩) _ deep rfl

end Code

end MiddleEnd
