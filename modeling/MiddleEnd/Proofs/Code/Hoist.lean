import MiddleEnd.Code.Hoist
import MiddleEnd.Proofs.Code.WellFormed

/-! Closure conversion as a function of the captures alone: what is left of a block without its
functions, and the functions that were taken out. -/

namespace MiddleEnd

def Op.convert (captures : Captures) : Op → Op
  | .call .direct callee args => .call (captures.callKind callee) callee args
  | op => op

mutual
def Block.strip (captures : Captures) : Block → Block
  | .mk name body => .mk name (Code.strip captures body)
def Code.strip (captures : Captures) : List (Instr Block) → List (Instr Block)
  | [] => []
  | ⟨id, name, span, .op op⟩ :: rest =>
    ⟨id, name, span, .op (op.convert captures)⟩ :: Code.strip captures rest
  | ⟨id, name, span, .branch test yes no⟩ :: rest =>
    ⟨id, name, span, .branch test (yes.strip captures) (no.strip captures)⟩ ::
      Code.strip captures rest
  | ⟨id, name, span, .function _ _ _⟩ :: rest =>
    match captures.closures.find? name with
    | some held => ⟨id, name, span, .op (.closure held name)⟩ :: Code.strip captures rest
    | none => Code.strip captures rest
end

def Definition.strip (captures : Captures) (definition : Definition) : Definition :=
  { definition with body := definition.body.strip captures }

def Toplevel.definition (entry : String × Toplevel) : Definition :=
  ⟨entry.1, entry.2.params, entry.2.body⟩

namespace Hoist

variable {captures : Captures} {current : Option String}

theorem noteCall_spec (current : Option String) (callee : String) (state : Hoisting) :
    Gives (noteCall current callee) state fun _ later => later.hoisted = state.hoisted := by
  unfold noteCall
  split
  · exact .modify rfl
  · exact .pure rfl

def Lifts (captures : Captures) (definitions : List Definition) (state later : Hoisting) : Prop :=
  ∃ functions, later.hoisted = state.hoisted ++ functions ∧
    (functions.filterMap Instr.toplevel?).map Toplevel.definition =
      definitions.map (Definition.strip captures)

theorem Lifts.trans {definitions definitions' : List Definition} {state middle later : Hoisting}
    (first : Lifts captures definitions state middle)
    (second : Lifts captures definitions' middle later) :
    Lifts captures (definitions ++ definitions') state later := by
  obtain ⟨functions, grown, defined⟩ := first
  obtain ⟨functions', grown', defined'⟩ := second
  refine ⟨functions ++ functions', by rw [grown', grown, List.append_assoc], ?_⟩
  rw [List.filterMap_append, List.map_append, defined, defined', List.map_append]

def Spec (captures : Captures) (code : Code) : Prop :=
  ∀ current state, Gives (Hoist.code captures current code) state fun result later =>
    result = Code.strip captures code ∧ Lifts captures (Code.definitions code) state later

theorem code_op {id : Nat} {name : String} {span : Span} {op : Op} {rest : Code}
    (indirect : ∀ callee args, op ≠ .call .direct callee args) :
    Hoist.code captures current (⟨id, name, span, .op op⟩ :: rest) = (do
      return ⟨id, name, span, .op op⟩ :: (← Hoist.code captures current rest)) := by
  rw [Hoist.code]
  rintro callee args rfl
  exact indirect callee args rfl

theorem convert_of_indirect {op : Op} (indirect : ∀ callee args, op ≠ .call .direct callee args) :
    op.convert captures = op := by
  unfold Op.convert
  split
  · next callee args => exact absurd rfl (indirect callee args)
  · rfl

theorem block_spec {label : String} {body : Code} (spec : Spec captures body)
    (current : Option String) (state : Hoisting) :
    Gives (Hoist.block captures current (.mk label body)) state fun result later =>
      result = .mk label (Code.strip captures body) ∧
        Lifts captures (Code.definitions body) state later := by
  rw [Hoist.block]
  refine .bind (spec current state) fun _ later ⟨stripped, lifts⟩ => .pure ⟨?_, lifts⟩
  rw [stripped]

theorem code_spec (captures : Captures) (code : Code) : Spec captures code := by
  induction code using Code.induction with
  | nil =>
    intro _ _
    exact .pure ⟨rfl, [], by simp, rfl⟩
  | @op _ _ _ op _ ih =>
    intro current state
    by_cases direct : ∃ callee args, op = .call .direct callee args
    · obtain ⟨callee, args, rfl⟩ := direct
      rw [Hoist.code]
      refine .bind (noteCall_spec current callee state) fun _ middle same => ?_
      refine .bind (ih current middle) fun rest' later ⟨stripped, functions, grown, defined⟩ => ?_
      exact .pure ⟨by rw [stripped]; rfl, functions, by rw [grown, same], defined⟩
    · have indirect (callee : String) (args : List String) : op ≠ .call .direct callee args :=
        fun same => direct ⟨callee, args, same⟩
      rw [code_op indirect]
      refine .bind (ih current state) fun rest' later ⟨stripped, lifts⟩ => .pure ⟨?_, lifts⟩
      rw [stripped, Code.strip, convert_of_indirect indirect]
  | branch yes_ih no_ih ih =>
    intro current state
    rw [Hoist.code]
    refine .bind (block_spec yes_ih current state) ?_
    rintro _ first ⟨rfl, yes_lifts⟩
    refine .bind (block_spec no_ih current first) ?_
    rintro _ second ⟨rfl, no_lifts⟩
    refine .bind (ih current second) ?_
    rintro _ later ⟨rfl, lifts⟩
    exact .pure ⟨rfl, (yes_lifts.trans no_lifts).trans lifts⟩
  | @function id name span params label body _ _ body_ih ih =>
    intro current state
    rw [Hoist.code]
    refine .bind (block_spec body_ih (some name) state) ?_
    rintro _ first ⟨rfl, body_lifts⟩
    have own (state : Hoisting) (again : Bool) : Lifts captures [⟨name, params, .mk label body⟩] state
        { state with hoisted := state.hoisted ++
          [⟨id, name, span, .function params (.mk label (Code.strip captures body)) again⟩] } :=
      ⟨_, rfl, rfl⟩
    refine .bind (show Gives _ first fun _ second =>
      Lifts captures (Code.definitions body ++ [⟨name, params, .mk label body⟩]) state second from
        .modify (body_lifts.trans (own first _))) fun _ second moved => ?_
    refine .bind (ih current second) ?_
    rintro _ later ⟨rfl, lifts⟩
    have all := moved.trans lifts
    rw [List.append_assoc] at all
    rw [Code.strip]
    cases captures.closures.find? name with
    | some _ => exact .pure ⟨rfl, all⟩
    | none => exact .pure ⟨rfl, all⟩

end Hoist

theorem Block.convert_spec (block : Block) (captures : Captures) :
    (block.convert captures).entry = block.strip captures ∧
      (block.convert captures).closures = captures.closures ∧
      ∃ entries, (block.convert captures).toplevel = .ofList entries ∧
        entries.map Toplevel.definition =
          (Code.blockDefinitions block).map (Definition.strip captures) := by
  obtain ⟨label, body⟩ := block
  obtain ⟨stripped, functions, grown, defined⟩ : Gives (Hoist.block captures none (.mk label body)) {}
      fun result later => result = .mk label (Code.strip captures body) ∧
        Hoist.Lifts captures (Code.definitions body) {} later :=
    Hoist.block_spec (Hoist.code_spec captures body) none {}
  refine ⟨stripped, rfl, functions.filterMap Instr.toplevel?, ?_, defined⟩
  exact congrArg (fun hoisted => NameMap.ofList (hoisted.filterMap Instr.toplevel?)) grown

end MiddleEnd
