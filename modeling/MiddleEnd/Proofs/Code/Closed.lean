import MiddleEnd.Proofs.Exec.Convert

/-! Functions at the top level are closed, and closures hold no more than they have to: what a function
reads is its own, its parameter or held by its closure, and what a closure holds is read by its
function. -/

namespace MiddleEnd

open List

variable {names : List String} {first second name : String} {definition : Definition} {code : Code}

def Op.demands : Op → List String
  | call .direct _ args => args
  | op => op.operands

def Value.demands : Value Block → List String
  | op here => here.demands
  | branch test _ _ => [test]
  | function _ _ _ => []

namespace Code

def Demands (code : Code) (name : String) : Prop :=
  ∃ instr ∈ instrs code, name ∈ instr.value.demands

mutual
def BlockSupplied (scope : List String) : Block → Prop
  | .mk _ body => Supplied scope body
def Supplied (scope : List String) : List (Instr Block) → Prop
  | [] => True
  | ⟨_, name, _, .op op⟩ :: rest =>
    (∀ operand ∈ op.demands, operand ∈ scope) ∧ Supplied (name :: scope) rest
  | ⟨_, name, _, .branch test yes no⟩ :: rest =>
    test ∈ scope ∧ BlockSupplied scope yes ∧ BlockSupplied scope no ∧ Supplied (name :: scope) rest
  | ⟨_, _, _, .function _ _ _⟩ :: _ => False
end

end Code

/-- A program whose functions read what they are given: their parameters, and if they are closures
themselves and what they hold. Each closure holds distinct names, and only such as its function reads. -/
structure Converted.Closed (program : Converted) : Prop where
  entry : Code.BlockSupplied [] program.entry
  bodies {name : String} {function : Toplevel} (found : program.toplevel.find? name = some function) :
    Code.BlockSupplied
      (function.params ++ ((program.closures.find? name).map (name :: ·)).getD []) function.body
  exact {name : String} {held : List String} (found : program.closures.find? name = some held) :
    held.Nodup ∧ ∃ function, program.toplevel.find? name = some function ∧
      ∀ member ∈ held, Code.Demands function.body.body member ∧ member ≠ name ∧
        member ∉ function.params

/-! ### Names in order -/

theorem lt_of_nameLe (le : nameLe first second = true) (differs : first ≠ second) : first < second := by
  have not_lt : ¬ second < first := by simpa [nameLe] using le
  by_contra not_lt'
  exact differs (String.le_antisymm (String.not_lt.mp not_lt) (String.not_lt.mp not_lt'))

theorem lt_of_not_nameLe (gt : ¬ nameLe first second = true) : second < first := by
  simpa [nameLe] using gt

theorem pairwise_insertName (sorted : names.Pairwise (· < ·)) :
    (insertName name names).Pairwise (· < ·) := by
  induction names with
  | nil => simp [insertName]
  | cons _ _ ih =>
    obtain ⟨below, rest_sorted⟩ := pairwise_cons.mp sorted
    rw [insertName]
    split
    · exact sorted
    · next differs =>
      split
      · next le =>
        have lt := lt_of_nameLe le differs
        refine pairwise_cons.mpr ⟨fun other mem => ?_, sorted⟩
        rcases mem_cons.mp mem with rfl | mem
        · exact lt
        · exact String.lt_trans lt (below other mem)
      · next gt =>
        refine pairwise_cons.mpr ⟨fun other mem => ?_, ih rest_sorted⟩
        rcases mem_insertName.mp mem with rfl | mem
        · exact lt_of_not_nameLe gt
        · exact below other mem

theorem pairwise_nameSet (names : List String) : (nameSet names).Pairwise (· < ·) := by
  induction names with
  | nil => exact .nil
  | cons _ _ ih => exact pairwise_insertName ih

theorem nodup_nameSet (names : List String) : (nameSet names).Nodup := by
  apply (pairwise_nameSet names).imp
  rintro first _ lt rfl
  exact String.lt_irrefl first lt

/-! ### What is free is demanded and supplied -/

variable {captures : Captures} {whole : Code} {scope : List String}

section

variable (exact : captures.Exact whole)
include exact

theorem Captures.Exact.demands_convert {op : Op}
    (lawful : Value.Lawful (.op op)) : (op.convert captures).demands = op.reads captures.known := by
  cases op with
  | call kind callee _ =>
    cases kind with
    | direct =>
      rw [Op.convert, exact.callKind_eq, Op.reads]
      by_cases known : callee ∈ captures.known
      · simp [known, Op.demands]
      · simp [known, Op.demands, Op.operands]
    | closure => exact absurd rfl lawful
    | external => simp [Op.convert, Op.demands, Op.reads, Op.operands]
  | closure _ _ => exact lawful.elim
  | _ => rfl

theorem Captures.Exact.known_of_find?_eq_none (mem : definition ∈ Code.definitions whole)
    (absent : captures.closures.find? definition.name = none) : definition.name ∈ captures.known := by
  by_contra unknown
  rw [exact.closure mem unknown] at absent
  cases absent

theorem Captures.Exact.supplied_strip (lawful : ∀ instr ∈ Code.instrs whole, instr.value.Lawful)
    (placed : Code.Placed whole scope code)
    (kept : ∀ name ∈ captures.free code, name ∈ names) :
    Code.Supplied names (Code.strip captures code) := by
  induction code using Code.induction generalizing scope names with
  | nil => exact trivial
  | @op _ own _ _ rest ih =>
    refine ⟨fun operand demanded => ?_, ih placed.rest (Captures.mem_of_free_rest kept)⟩
    rw [exact.demands_convert (lawful _ (placed.inside (.head _)))] at demanded
    -- The instruction does not read its own name, as that is not in scope yet.
    have visible : operand ∈ scope := placed.fits.1 operand (Op.mem_operands_of_reads demanded)
    have differs : operand ≠ own := fun same =>
      placed.apart operand visible (by rw [same]; exact .head _)
    apply kept
    rw [Captures.free, Code.free]
    exact mem_filter.mpr ⟨mem_append_left _ demanded, bne_iff_ne.mpr differs⟩
  | @branch _ own _ test _ yes _ no rest yes_ih no_ih ih =>
    have past {name : String} (visible : name ∈ scope) : name ≠ own := fun same =>
      placed.apart name visible (by rw [same]; simp)
    have free {name : String} (visible : name ∈ scope)
        (mem : name ∈ test :: (captures.free yes ++ captures.free no ++ captures.free rest)) :
        name ∈ names :=
      kept name (mem_filter.mpr ⟨mem, bne_iff_ne.mpr (past visible)⟩)
    have yes_placed := placed.arm (.inl rfl)
    have no_placed := placed.arm (.inr rfl)
    refine ⟨free placed.fits.1 (.head _), yes_ih yes_placed fun name mem => ?_,
      no_ih no_placed fun name mem => ?_, ih placed.rest (Captures.mem_of_free_rest kept)⟩
    · exact free (exact.mem_of_free yes_placed.inside yes_placed.fits mem) (by simp [mem])
    · exact free (exact.mem_of_free no_placed.inside no_placed.fits mem) (by simp [mem])
  | @function _ own _ _ label _ _ rest body_ih ih =>
    have stands := placed.stands
    have later := Captures.mem_of_free_rest kept
    rw [Code.strip]
    cases found : captures.closures.find? own with
    | some held =>
      refine ⟨fun name (demanded : name ∈ held) => ?_, ih placed.rest later⟩
      have unknown := (exact.keys (by rw [NameMap.contains, found]; rfl)).2
      have differs := ((exact.mem_held stands.member found).mp demanded).2.2
      apply kept
      rw [Captures.free, Code.free]
      refine mem_filter.mpr ⟨mem_append_left _ ?_, bne_iff_ne.mpr differs⟩
      simpa [found, unknown] using demanded
    | none =>
      -- The function leaves nothing behind, and nothing reads its label.
      have known : own ∈ captures.known := exact.known_of_find?_eq_none stands.member found
      refine ih placed.rest fun name mem => ?_
      refine (mem_cons.mp (later name mem)).resolve_left fun same => ?_
      exact exact.not_known_of_free placed.rest.inside mem (same ▸ known)

theorem Captures.Exact.demands_strip (lawful : ∀ instr ∈ Code.instrs whole, instr.value.Lawful)
    (inside : Code.instrs code ⊆ Code.instrs whole) (free : name ∈ captures.free code) :
    Code.Demands (Code.strip captures code) name := by
  induction code using Code.induction with
  | nil => cases free
  | op ih =>
    obtain ⟨mem, _⟩ := mem_filter.mp free
    rcases mem_append.mp mem with read | later
    · refine ⟨_, .head _, ?_⟩
      rw [Value.demands, exact.demands_convert (lawful _ (inside (.head _)))]
      exact read
    · obtain ⟨instr, there, demanded⟩ := ih (fun _ there => inside (.tail _ there)) later
      exact ⟨instr, mem_cons_of_mem _ there, demanded⟩
  | branch yes_ih no_ih ih =>
    simp only [Code.instrs, Code.blockInstrs, cons_subset, append_subset] at inside
    obtain ⟨mem, _⟩ := mem_filter.mp free
    simp only [Code.blockFree, mem_cons, mem_append] at mem
    simp only [Code.Demands, Code.strip, Block.strip, Code.instrs, Code.blockInstrs, mem_cons,
      mem_append]
    rcases mem with rfl | (mem | mem) | mem
    · exact ⟨_, .inl rfl, .head _⟩
    · obtain ⟨instr, there, demanded⟩ := yes_ih inside.2.1.1 mem
      exact ⟨instr, .inr (.inl (.inl there)), demanded⟩
    · obtain ⟨instr, there, demanded⟩ := no_ih inside.2.1.2 mem
      exact ⟨instr, .inr (.inl (.inr there)), demanded⟩
    · obtain ⟨instr, there, demanded⟩ := ih inside.2.2 mem
      exact ⟨instr, .inr (.inr there), demanded⟩
  | @function _ own _ _ _ _ _ _ body_ih ih =>
    simp only [Code.instrs, Code.blockInstrs, cons_subset, append_subset] at inside
    obtain ⟨mem, _⟩ := mem_filter.mp free
    rw [Code.strip]
    rcases mem_append.mp mem with read | later
    · split at read
      · cases read
      · cases found : captures.closures.find? own with
        | none => simp [found] at read
        | some _ =>
          rw [found, Option.getD_some] at read
          exact ⟨_, .head _, read⟩
    · obtain ⟨instr, there, demanded⟩ := ih inside.2.2 later
      split
      · exact ⟨instr, mem_cons_of_mem _ there, demanded⟩
      · exact ⟨instr, there, demanded⟩

end

/-! ### Functions at the top level -/

theorem Code.Placed.exists_stands (placed : Placed whole scope code)
    (mem : definition ∈ definitions code) :
    ∃ scope', Stands whole scope' definition := by
  induction code using Code.induction generalizing scope with
  | nil => cases mem
  | @op _ _ _ _ rest ih => exact ih placed.rest mem
  | @branch _ _ _ _ _ _ _ _ rest yes_ih no_ih ih =>
    simp only [definitions, blockDefinitions, mem_append] at mem
    rcases mem with (mem | mem) | mem
    · exact yes_ih (placed.arm (.inl rfl)) mem
    · exact no_ih (placed.arm (.inr rfl)) mem
    · exact ih placed.rest mem
  | @function _ _ _ _ _ _ _ rest body_ih ih =>
    simp only [definitions, blockDefinitions, mem_append, mem_cons] at mem
    rcases mem with mem | rfl | mem
    · exact body_ih placed.stands.placed mem
    · exact ⟨scope, placed.stands⟩
    · exact ih placed.rest mem

theorem Code.blockSupplied_eq (scope : List String) (block : Block) :
    BlockSupplied scope block = Supplied scope block.body := by
  cases block
  rfl

namespace Module.WellFormed

variable {module : Module}

theorem placed (formed : module.WellFormed) : Code.Placed module.entry.body [] module.entry.body :=
  ⟨List.Subset.refl _, formed.fits, formed.defs_nodup, nofun⟩

theorem definition_of_find? (formed : module.WellFormed) {function : Toplevel}
    (found : module.converted.toplevel.find? name = some function) :
    ∃ definition ∈ Code.definitions module.entry.body, definition.name = name ∧
      function.params = definition.params ∧
      function.body = definition.body.strip module.entry.captures := by
  have contained : module.converted.toplevel.contains name = true := by
    rw [NameMap.contains, found]
    rfl
  obtain ⟨definition, mem, rfl⟩ := mem_map.mp ((module.contains_toplevel name).mp contained)
  obtain ⟨entry, there, params, body⟩ := formed.find?_toplevel mem
  obtain rfl : function = entry := Option.some.inj (found.symm.trans there)
  exact ⟨definition, mem, rfl, params, body⟩

theorem converted_closed (formed : module.WellFormed) : module.converted.Closed := by
  have exact := formed.exact
  have closures : module.converted.closures = module.entry.captures.closures :=
    (Block.convert_spec module.entry module.entry.captures).2.1
  constructor
  · rw [(Block.convert_spec module.entry module.entry.captures).1, Code.blockSupplied_eq, body_strip]
    exact exact.supplied_strip formed.lawful formed.placed fun name free =>
      exact.mem_of_free formed.placed.inside formed.placed.fits free
  · intro name function found
    obtain ⟨definition, mem, rfl, params, body⟩ := formed.definition_of_find? found
    obtain ⟨scope, stands⟩ := formed.placed.exists_stands mem
    rw [body, params, closures, Code.blockSupplied_eq, body_strip]
    apply exact.supplied_strip formed.lawful stands.placed
    cases held : module.entry.captures.closures.find? definition.name with
    | some _ => exact exact.mem_of_free_body mem held
    | none => exact exact.mem_of_free_known stands (exact.known_of_find?_eq_none mem held)
  · intro name held found
    rw [closures] at found
    obtain ⟨defined, unknown⟩ := exact.keys (by rw [NameMap.contains, found]; rfl)
    obtain ⟨definition, mem, rfl⟩ := mem_map.mp defined
    obtain ⟨scope, stands⟩ := formed.placed.exists_stands mem
    obtain ⟨function, there, params, body⟩ := formed.find?_toplevel mem
    constructor
    · rw [exact.closure mem unknown] at found
      obtain rfl := Option.some.inj found
      exact nodup_nameSet _
    · refine ⟨function, there, fun inside is_held => ?_⟩
      obtain ⟨free, no_param, differs⟩ := (exact.mem_held mem found).mp is_held
      rw [body, params, body_strip]
      exact ⟨exact.demands_strip formed.lawful stands.placed.inside free, differs, no_param⟩

end Module.WellFormed

/-- Functions at the top level are closed and closures hold exactly what their functions read. -/
theorem Surface.convert_closed {program : Surface} (lexed : program.Lexed) {resolved : Resolved}
    {typed : Typed} {settings : Settings} (resolves : program.resolve = .ok resolved)
    (checks : resolved.check settings = .ok typed) :
    ∃ module, typed.lower = .ok module ∧ module.forward.converted.Closed := by
  obtain ⟨module, lowered, raw⟩ := exists_lowered lexed resolves checks
  exact ⟨module, lowered, raw.wellFormed_forward.converted_closed⟩

/-- `let rec adder x = let rec add y = if y = 0 then x else add (y - 1) in let rec twice z =
add (add z) in (add, twice) in adder 1`: one closure holds a parameter, and another one holds the
first. -/
def Surface.twoClosures : Surface :=
  let name (text : String) : Ident := ⟨text, default, 0⟩
  let var (text : String) (order : Nat) : Expr Ident Mention TypeExpr Span :=
    .var default ⟨name text, order⟩
  let int (value : Int) : Expr Ident Mention TypeExpr Span := .lit default (.int value)
  { body :=
      .letRec default (name "adder") [⟨name "x", none⟩] none
        (.letRec default (name "add") [⟨name "y", none⟩] none
          (.cond default (.binary default .equals (var "y" 0) (int 0)) (var "x" 1)
            (.apply default (var "add" 2) [.binary default .subtract (var "y" 3) (int 1)]))
          (.letRec default (name "twice") [⟨name "z", none⟩] none
            (.apply default (var "add" 4) [.apply default (var "add" 5) [var "z" 6]])
            (.tuple default [var "add" 7, var "twice" 8])))
        (.apply default (var "adder" 9) [int 1]) }

theorem Surface.convert_closed_twoClosures : twoClosures.Lexed ∧
    ∃ resolved typed module, twoClosures.resolve = .ok resolved ∧
      resolved.check { seedBuiltins := false } = .ok typed ∧ typed.lower = .ok module ∧
      module.forward.converted.closures.sorted.map (fun entry => entry.2.length) = [1, 1] ∧
      module.forward.converted.Closed := by
  have lexed : twoClosures.Lexed := by decide +kernel
  obtain ⟨resolved, typed, resolves, checks, test⟩ :=
    exists_of_accepted twoClosures { seedBuiltins := false } fun _ typed => typed.lowersTo fun module =>
      decide (module.forward.converted.closures.sorted.map (fun entry => entry.2.length) = [1, 1])
  obtain ⟨module, lowered, closed⟩ := convert_closed lexed resolves checks
  rw [Typed.lowersTo_eq lowered, decide_eq_true_eq] at test
  exact ⟨lexed, resolved, typed, module, resolves, checks, lowered, test, closed⟩

end MiddleEnd
