import MiddleEnd.Proofs.Code.Copies
import MiddleEnd.Proofs.Code.Lower

/-! Code whose operands have been led past copies, as a function of the copies alone. -/

namespace MiddleEnd

variable {fuel : Nat} {copy : Copy} {external : String} {names : List String} {copies : NameMap Copy}
  {name : String}

def Instr.copy? (instr : Instr Block) : Option Copy :=
  match instr.value with
  | .op (.ref target) => some ⟨instr.id, target, false⟩
  | .op (.external target) => some ⟨instr.id, target, true⟩
  | _ => none

theorem Instr.id_copy? {instr : Instr Block} (here : instr.copy? = some copy) : copy.id = instr.id := by
  unfold Instr.copy? at here
  split at here <;> cases here <;> rfl

def Op.redirect (copies : NameMap Copy) : Op → Op
  | .ref target => .ref target
  | .external target => .external target
  | op => (Copies.callee copies op).1.mapOperands (Copies.target copies)

mutual
def Block.redirect (copies : NameMap Copy) : Block → Block
  | .mk name body => .mk name (Code.redirect copies body)
def Code.redirect (copies : NameMap Copy) : List (Instr Block) → List (Instr Block)
  | [] => []
  | ⟨id, name, span, .op op⟩ :: rest =>
    ⟨id, name, span, .op (op.redirect copies)⟩ :: Code.redirect copies rest
  | ⟨id, name, span, .branch test yes no⟩ :: rest =>
    ⟨id, name, span, .branch (Copies.target copies test) (yes.redirect copies) (no.redirect copies)⟩ ::
      Code.redirect copies rest
  | ⟨id, name, span, .function params body recursive⟩ :: rest =>
    ⟨id, name, span, .function params (body.redirect copies) recursive⟩ :: Code.redirect copies rest
end

namespace Value

def redirect (copies : NameMap Copy) : Value Block → Value Block
  | op here => .op (here.redirect copies)
  | branch test yes no =>
    .branch (Copies.target copies test) (yes.redirect copies) (no.redirect copies)
  | function params body recursive => .function params (body.redirect copies) recursive

@[simp] theorem isFunction_redirect (copies : NameMap Copy) (value : Value Block) :
    (value.redirect copies).isFunction = value.isFunction := by
  cases value <;> rfl

end Value

def Instr.redirect (copies : NameMap Copy) (instr : Instr Block) : Instr Block :=
  { instr with value := instr.value.redirect copies }

@[simp] theorem Instr.id_redirect (copies : NameMap Copy) (instr : Instr Block) :
    (instr.redirect copies).id = instr.id := rfl

@[simp] theorem Instr.name_redirect (copies : NameMap Copy) (instr : Instr Block) :
    (instr.redirect copies).name = instr.name := rfl

@[simp] theorem Instr.value_redirect (copies : NameMap Copy) (instr : Instr Block) :
    (instr.redirect copies).value = instr.value.redirect copies := rfl

theorem Code.redirect_eq (copies : NameMap Copy) (code : Code) :
    Code.redirect copies code = code.map (Instr.redirect copies) := by
  induction code with
  | nil => rfl
  | cons instr _ ih =>
    obtain ⟨id, _, _, value⟩ := instr
    cases value <;> simp [Code.redirect, ih, Instr.redirect, Value.redirect]

namespace Op

theorem mapOperands_congr {change change' : String → String} {op : Op}
    (same : ∀ operand ∈ op.operands, change operand = change' operand) :
    op.mapOperands change = op.mapOperands change' := by
  cases op with
  | call kind _ _ =>
    by_cases external : kind = .external
    · simp only [operands, external, if_true] at same
      simpa [mapOperands, external] using same
    · simp only [operands, external, if_false, List.mem_cons, forall_eq_or_imp] at same
      simpa [mapOperands, external] using same
  | _ => simp_all [operands, mapOperands]

def Original : Op → Prop
  | .ref _ | .external _ => False
  | _ => True

theorem copy_or_original (op : Op) :
    (∃ target, op = .ref target) ∨ (∃ target, op = .external target) ∨ op.Original := by
  cases op with
  | ref target => exact .inl ⟨target, rfl⟩
  | external target => exact .inr (.inl ⟨target, rfl⟩)
  | _ => exact .inr (.inr trivial)

theorem Original.redirect_eq {op : Op} (original : op.Original) :
    op.redirect copies = (Copies.callee copies op).1.mapOperands (Copies.target copies) := by
  cases op with
  | ref | external => cases original
  | _ => rfl

theorem Original.copy?_eq {id : Nat} {span : Span} {op : Op} (original : op.Original) :
    Instr.copy? ⟨id, name, span, .op op⟩ = .none := by
  cases op with
  | ref | external => cases original
  | _ => rfl

end Op

namespace Copies

variable {copies' : NameMap Copy} {scope : List String}

/-- What a copy in scope stands for is in scope, and is no temporary. -/
def Closed (copies : NameMap Copy) (scope : List String) : Prop :=
  ∀ name ∈ scope, ∀ copy, copies.find? name = some copy → copy.isExternal = false →
    copy.target ∈ scope ∧ isTemporary copy.target = false

theorem target_mem (closed : Closed copies scope) (mem : name ∈ scope) :
    target copies name ∈ scope := by
  rw [target]
  split
  · next copy here =>
    split
    · exact mem
    · next inside => exact (closed name mem copy here (by simpa using inside)).1
  · exact mem

theorem target_congr (same : copies.find? name = copies'.find? name) :
    target copies name = target copies' name := by
  rw [target, same, target]

theorem isLocal_iff :
    isLocal copies name = true ↔ ∃ copy, copies.find? name = some copy ∧ copy.isExternal = false := by
  rw [isLocal]
  split <;> simp_all

theorem toExternal_congr (closed : Closed copies' scope)
    (same : ∀ name ∈ scope, copies.find? name = copies'.find? name) (fuel : Nat) (mem : name ∈ scope) :
    toExternal copies fuel name = toExternal copies' fuel name := by
  induction fuel generalizing name with
  | zero => rfl
  | succ _ ih =>
    rw [toExternal, toExternal, same name mem]
    split
    · rfl
    · next copy here =>
      split
      · rfl
      · next inside => rw [ih (closed name mem copy here (by simpa using inside)).1]

theorem external?_congr (closed : Closed copies' scope)
    (same : ∀ name ∈ scope, copies.find? name = copies'.find? name) (mem : name ∈ scope) :
    external? copies name = external? copies' name := by
  apply Option.ext
  rintro ⟨_, external⟩
  rw [external?_eq_some, external?_eq_some]
  exact exists_congr fun fuel => by rw [toExternal_congr closed same fuel mem]

theorem chain_first (closed : Closed copies scope) (mem : name ∈ scope)
    (found : toExternal copies fuel name = some (names, external)) {link : String}
    (there : link ∈ names) : link = name ∨ isTemporary link = false := by
  induction fuel generalizing name names with
  | zero => cases found
  | succ _ ih =>
    obtain ⟨copy, here, ⟨_, rfl, _⟩ | ⟨inside, _, rfl, rest_found⟩⟩ := toExternal_succ.mp found
    · exact .inl (List.mem_singleton.mp there)
    · obtain ⟨target_member, clean⟩ := closed name mem copy here inside
      rcases List.mem_cons.mp there with same | there
      · exact .inl same
      · rcases ih target_member rest_found there with rfl | clean
        · exact .inr clean
        · exact .inr clean

theorem mem_chain (found : toExternal copies fuel name = some (names, external)) : name ∈ names := by
  cases fuel with
  | zero => cases found
  | succ _ =>
    obtain ⟨_, _, ⟨_, rfl, _⟩ | ⟨_, _, rfl, _⟩⟩ := toExternal_succ.mp found
    · exact List.mem_singleton_self name
    · exact .head _

theorem external?_of_external (here : copies.find? name = some copy) (outside : copy.isExternal = true) :
    external? copies name = some ([name], copy.target) :=
  toExternal_succ.mpr ⟨copy, here, .inl ⟨outside, rfl, rfl⟩⟩

end Copies

end MiddleEnd
