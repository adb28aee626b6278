import MiddleEnd.Proofs.Code.Closed

/-! The classification of functions is the greatest one that is consistent: every set of functions that
could all be called by their labels is among those that are known. -/

namespace MiddleEnd

open List

variable {state : Classification} {known : List String} {labelled : String → Prop} {whole : Code}
  {name : String} {definition : Definition} {code : Code}

def Value.Reads (labelled : String → Prop) (value : Value Block) (name : String) : Prop :=
  (name, .value) ∈ value.uses ∨ (name, .callee) ∈ value.uses ∧ ¬ labelled name

inductive Code.Needs (labelled : String → Prop) : Code → String → Prop where
  | here {id : Nat} {own : String} {span : Span} {value : Value Block} {rest : Code} {name : String}
      (read : value.Reads labelled name) (other : name ≠ own) :
      Needs labelled (⟨id, own, span, value⟩ :: rest) name
  | arm {id : Nat} {own test : String} {span : Span} {yes no block : Block} {rest : Code}
      {name : String} (chosen : block = yes ∨ block = no) (inside : Needs labelled block.body name)
      (other : name ≠ own) : Needs labelled (⟨id, own, span, .branch test yes no⟩ :: rest) name
  | closure {id : Nat} {own : String} {span : Span} {params : List String} {body : Block}
      {recursive : Bool} {rest : Code} {name : String} (unlabelled : ¬ labelled own)
      (inside : Needs labelled body.body name) (no_param : name ∉ params) (other : name ≠ own) :
      Needs labelled (⟨id, own, span, .function params body recursive⟩ :: rest) name
  | later {instr : Instr Block} {rest : Code} {name : String} (after : Needs labelled rest name)
      (other : name ≠ instr.name) : Needs labelled (instr :: rest) name

def Definition.Needs (labelled : String → Prop) (definition : Definition) (name : String) : Prop :=
  Code.Needs labelled definition.body.body name ∧ name ∉ definition.params ∧ name ≠ definition.name

structure Code.Consistent (whole : Code) (labelled : String → Prop) : Prop where
  function (name : String) (member : labelled name) : name ∈ (definitions whole).map Definition.name
  unread (name : String) (member : labelled name) : name ∉ values whole
  closed {definition : Definition} (there : definition ∈ definitions whole)
    (member : labelled definition.name) (name : String) : ¬ definition.Needs labelled name

/-- Every function is known or has a closure, not both. The known ones are the greatest set that can be
called by labels, and the closures of the others hold what these need then, in order. -/
structure Captures.Greatest (whole : Code) (captures : Captures) : Prop where
  parts (name : String) : name ∈ (Code.definitions whole).map Definition.name ↔
    (name ∈ captures.known ∨ captures.closures.contains name = true)
  apart (name : String) (known : name ∈ captures.known) : captures.closures.contains name = false
  escaping {name : String} (function : name ∈ (Code.definitions whole).map Definition.name)
    (read : name ∈ Code.values whole) : captures.closures.contains name = true
  consistent : Code.Consistent whole (· ∈ captures.known)
  closure {definition : Definition} (there : definition ∈ Code.definitions whole) {held : List String}
    (found : captures.closures.find? definition.name = some held) :
    held.Pairwise (· < ·) ∧ ∀ name, name ∈ held ↔ definition.Needs (· ∈ captures.known) name
  greatest (labelled : String → Prop) (consistent : Code.Consistent whole labelled) (name : String)
    (member : labelled name) : name ∈ captures.known

namespace Classification

/-- Rounds that end with the first one after which the same functions are known. -/
inductive Ends (definitions : List Definition) : Classification → Classification → Prop where
  | last {state : Classification} (same : (round definitions state).known = state.known) :
      Ends definitions state (round definitions state)
  | again {state final : Classification} (fewer : (round definitions state).known ≠ state.known)
      (ends : Ends definitions (round definitions state) final) : Ends definitions state final

/-- What is captured by the functions that are not known. -/
def closures (state : Classification) : NameMap (List String) :=
  ⟨state.captures.entries.filter fun entry => !state.known.contains entry.1⟩

theorem ends_rounds (definitions : List Definition) {fuel : Nat} (enough : state.known.length < fuel) :
    Ends definitions state (rounds definitions fuel state) := by
  induction fuel generalizing state with
  | zero => omega
  | succ _ ih =>
    have sublist := known_round definitions state
    rw [rounds]
    split
    · next same => exact .last (sublist.eq_of_length same)
    · next changed =>
      have shorter := sublist.length_le
      refine .again (fun same => changed ?_) (ih (by omega))
      rw [same]

end Classification

/-- At first, what is not read as a value is known. -/
def Block.candidates (block : Block) : Classification :=
  { known := (nameSet ((Code.blockDefinitions block).map Definition.name)).filter fun name =>
      !(Code.blockValues block).contains name }

theorem Block.captures_ends (block : Block) :
    ∃ final, Classification.Ends (Code.blockDefinitions block) block.candidates final ∧
      block.captures.known = final.known ∧ block.captures.closures = final.closures := by
  refine ⟨_, Classification.ends_rounds _ ?_, rfl, rfl⟩
  have filtered : block.candidates.known.length ≤
      (nameSet ((Code.blockDefinitions block).map Definition.name)).length :=
    length_filter_le _ _
  have few := length_nameSet_le ((Code.blockDefinitions block).map Definition.name)
  rw [length_map] at few
  omega

/-! ### What is free is needed -/

theorem Op.mem_reads {op : Op} : name ∈ op.reads known ↔ Value.Reads (· ∈ known) (.op op) name := by
  simp only [Value.Reads, Value.uses, mem_append, mem_map, Prod.mk.injEq, reduceCtorEq,
    and_false, exists_false, false_or, or_false, and_true, exists_eq_right]
  cases op with
  | call kind callee _ =>
    by_cases external : kind = .external
    · simp [reads, values, callees, external]
    · by_cases known : callee ∈ known <;>
        simp [reads, values, callees, external, known] <;> grind
  | _ => simp [reads, values, callees]

namespace Code

variable {captures : NameMap (List String)}

theorem reads_branch {test : String} {yes no : Block} :
    Value.Reads labelled (.branch test yes no) name ↔ name = test := by
  simp [Value.Reads, Value.uses]

theorem not_reads_function {params : List String} {body : Block} {recursive : Bool} :
    ¬ Value.Reads labelled (.function params body recursive) name := by
  simp [Value.Reads, Value.uses]

theorem reads_mono {larger : String → Prop} (subset : ∀ name, labelled name → larger name)
    {value : Value Block} (read : value.Reads larger name) :
    value.Reads labelled name :=
  read.imp_right fun ⟨use, unlabelled⟩ => ⟨use, fun mem => unlabelled (subset name mem)⟩

theorem needs_of_mem_free (subset : ∀ name, labelled name → name ∈ known)
    (recorded : ∀ definition ∈ definitions code, ∀ held, captures.find? definition.name = some held →
      ∀ name ∈ held, definition.Needs labelled name) (free : name ∈ free known captures code) :
    Needs labelled code name := by
  induction code using Code.induction with
  | nil => cases free
  | op ih =>
    obtain ⟨mem, other⟩ := mem_filter.mp free
    rw [bne_iff_ne] at other
    rcases mem_append.mp mem with read | after
    · exact .here (reads_mono subset (Op.mem_reads.mp read)) other
    · exact .later (ih recorded after) other
  | branch yes_ih no_ih ih =>
    simp only [definitions, blockDefinitions, mem_append] at recorded
    obtain ⟨mem, other⟩ := mem_filter.mp free
    rw [bne_iff_ne] at other
    simp only [blockFree, mem_cons, mem_append] at mem
    rcases mem with tested | (inside | inside) | after
    · exact .here (reads_branch.mpr tested) other
    · exact .arm (.inl rfl) (yes_ih (fun inner there => recorded inner (.inl (.inl there))) inside) other
    · exact .arm (.inr rfl) (no_ih (fun inner there => recorded inner (.inl (.inr there))) inside) other
    · exact .later (ih (fun inner there => recorded inner (.inr there)) after) other
  | @function _ own _ params label body _ _ body_ih ih =>
    simp only [definitions, blockDefinitions, mem_append, mem_cons] at recorded
    obtain ⟨mem, other⟩ := mem_filter.mp free
    rw [bne_iff_ne] at other
    rcases mem_append.mp mem with held | after
    · split at held
      · cases held
      · next unknown =>
        cases found : captures.find? own with
        | none => simp [found] at held
        | some names =>
          rw [found, Option.getD_some] at held
          obtain ⟨inside, no_param, _⟩ :=
            recorded ⟨own, params, .mk label body⟩ (.inr (.inl rfl)) names found name held
          refine .closure (fun mem => unknown ?_) inside no_param other
          simpa using subset own mem
    · exact .later (ih (fun inner there => recorded inner (.inr (.inr there))) after) other

theorem mem_free_of_needs (recorded : ∀ definition ∈ definitions code, definition.name ∉ known →
      ∃ held, captures.find? definition.name = some held ∧
        ∀ name, definition.Needs (· ∈ known) name → name ∈ held) (needs : Needs (· ∈ known) code name) :
    name ∈ free known captures code := by
  induction code using Code.induction with
  | nil => cases needs
  | op ih =>
    rw [free, mem_filter, bne_iff_ne, mem_append]
    cases needs with
    | here read other => exact ⟨.inl (Op.mem_reads.mpr read), other⟩
    | later after other => exact ⟨.inr (ih recorded after), other⟩
  | branch yes_ih no_ih ih =>
    simp only [definitions, blockDefinitions, mem_append] at recorded
    simp only [free, blockFree, mem_filter, bne_iff_ne, mem_cons, mem_append]
    cases needs with
    | here read other => exact ⟨.inl (reads_branch.mp read), other⟩
    | arm chosen inside other =>
      rcases chosen with rfl | rfl
      · have mem := yes_ih (fun inner there => recorded inner (.inl (.inl there))) inside
        exact ⟨.inr (.inl (.inl mem)), other⟩
      · have mem := no_ih (fun inner there => recorded inner (.inl (.inr there))) inside
        exact ⟨.inr (.inl (.inr mem)), other⟩
    | later after other =>
      have mem := ih (fun inner there => recorded inner (.inr there)) after
      exact ⟨.inr (.inr mem), other⟩
  | @function _ own _ params label body _ _ body_ih ih =>
    simp only [definitions, blockDefinitions, mem_append, mem_cons] at recorded
    rw [free, mem_filter, bne_iff_ne, mem_append]
    cases needs with
    | here read _ => exact absurd read not_reads_function
    | closure unlabelled inside no_param other =>
      obtain ⟨held, found, all⟩ :=
        recorded ⟨own, params, .mk label body⟩ (.inr (.inl rfl)) unlabelled
      refine ⟨.inl ?_, other⟩
      rw [if_neg (by simpa using unlabelled), found, Option.getD_some]
      exact all name ⟨inside, no_param, other⟩
    | later after other =>
      exact ⟨.inr (ih (fun inner there => recorded inner (.inr (.inr there))) after), other⟩

end Code

/-! ### Closures hold what is needed -/

namespace Captures.Exact

variable {captures : Captures}

section

variable (exact : captures.Exact whole)
include exact

theorem held_eq (mem : definition ∈ Code.definitions whole)
    {held : List String} (found : captures.closures.find? definition.name = some held) :
    held = definition.captures captures.known captures.closures := by
  have unknown := (exact.keys (by rw [NameMap.contains, found]; rfl)).2
  exact Option.some.inj (found.symm.trans (exact.closure mem unknown))

theorem mem_captures_of_inner (mem : definition ∈ Code.definitions whole)
    (inner : ∀ inner ∈ Code.definitions definition.body.body, ∀ name,
      name ∈ inner.captures captures.known captures.closures ↔ inner.Needs (· ∈ captures.known) name)
    (name : String) : name ∈ definition.captures captures.known captures.closures ↔
      definition.Needs (· ∈ captures.known) name := by
  rw [Definition.mem_captures, Definition.Needs]
  refine and_congr_left fun _ => ⟨fun free => ?_, fun needs => ?_⟩
  · refine Code.needs_of_mem_free (fun _ => id) (fun function there _ found name read => ?_) free
    rw [exact.held_eq (Code.definitions_trans mem there) found] at read
    exact (inner function there name).mp read
  · refine Code.mem_free_of_needs (fun function there unknown => ?_) needs
    refine ⟨_, exact.closure (Code.definitions_trans mem there) unknown, fun name => ?_⟩
    exact (inner function there name).mpr

theorem mem_captures_iff (inside : Code.definitions code ⊆ Code.definitions whole) :
    ∀ definition ∈ Code.definitions code, ∀ name,
      name ∈ definition.captures captures.known captures.closures ↔
        definition.Needs (· ∈ captures.known) name := by
  induction code using Code.induction with
  | nil => exact nofun
  | op ih => exact ih inside
  | branch yes_ih no_ih ih =>
    simp only [Code.definitions, Code.blockDefinitions, append_subset] at inside
    intro definition mem
    simp only [Code.definitions, Code.blockDefinitions, mem_append] at mem
    rcases mem with (mem | mem) | mem
    · exact yes_ih inside.1.1 definition mem
    · exact no_ih inside.1.2 definition mem
    · exact ih inside.2 definition mem
  | function body_ih ih =>
    simp only [Code.definitions, Code.blockDefinitions, append_subset, cons_subset] at inside
    intro definition mem
    simp only [Code.definitions, Code.blockDefinitions, mem_append, mem_cons] at mem
    rcases mem with mem | rfl | mem
    · exact body_ih inside.1 definition mem
    · exact exact.mem_captures_of_inner inside.2.1 (body_ih inside.1)
    · exact ih inside.2.2 definition mem

theorem consistent : Code.Consistent whole (· ∈ captures.known) where
  function := exact.known
  unread := exact.escaping
  closed {definition} there known name needs := by
    have captured := (exact.mem_captures_iff (List.Subset.refl _) definition there name).mpr needs
    rw [exact.empty there known] at captured
    cases captured

end

end Captures.Exact

/-! ### A consistent set stays known -/

namespace Classification

structure Above (whole : Code) (labelled : String → Prop) (state : Classification) : Prop where
  known (name : String) (member : labelled name) : name ∈ state.known
  needed {definition : Definition} (there : definition ∈ Code.definitions whole) {held : List String}
    (found : state.captures.find? definition.name = some held) :
    ∀ name ∈ held, definition.Needs labelled name

theorem Above.update (above : Above whole labelled state) (consistent : Code.Consistent whole labelled)
    (nodup : ((Code.definitions whole).map Definition.name).Nodup)
    (there : definition ∈ Code.definitions whole) : Above whole labelled (state.update definition) := by
  have needed : ∀ name ∈ definition.captures state.known state.captures,
      definition.Needs labelled name := by
    intro _ captured
    obtain ⟨free, no_param, other⟩ := Definition.mem_captures.mp captured
    refine ⟨Code.needs_of_mem_free above.known (fun _ inside held found => ?_) free, no_param, other⟩
    exact above.needed (Code.definitions_trans there inside) found
  constructor
  · intro name mem
    simp only [Classification.update]
    split
    · exact above.known name mem
    · next captures =>
      refine mem_filter.mpr ⟨above.known name mem, bne_iff_ne.mpr fun same => captures ?_⟩
      subst same
      refine List.isEmpty_iff.mpr (eq_nil_iff_forall_not_mem.mpr fun name captured => ?_)
      exact consistent.closed there mem name (needed name captured)
  · intro other other_there held found
    simp only [Classification.update, NameMap.find?_insert] at found
    split at found
    · next same =>
      obtain rfl := inj_on_of_nodup_map nodup other_there there same
      cases found
      exact needed
    · exact above.needed other_there found

theorem Above.ends (above : Above whole labelled state) (consistent : Code.Consistent whole labelled)
    (nodup : ((Code.definitions whole).map Definition.name).Nodup) {final : Classification}
    (ends : Ends (Code.definitions whole) state final) : Above whole labelled final := by
  have next {state : Classification} (above : Above whole labelled state) :
      Above whole labelled (round (Code.definitions whole) state) :=
    foldl_induction (fun _ there _ above => above.update consistent nodup there) above
  induction ends with
  | last _ => exact next above
  | again _ _ ih => exact ih (next above)

end Classification

theorem Block.greatest_captures (block : Block)
    (nodup : ((Code.definitions block.body).map Definition.name).Nodup) :
    block.captures.Greatest block.body := by
  obtain ⟨label, code⟩ := block
  have exact := Block.exact_captures (.mk label code) nodup
  have closes {name : String} (function : name ∈ (Code.definitions code).map Definition.name)
      (unknown : name ∉ (Block.mk label code).captures.known) :
      (Block.mk label code).captures.closures.contains name = true := by
    obtain ⟨definition, there, rfl⟩ := mem_map.mp function
    rw [NameMap.contains, exact.closure there unknown]
    rfl
  constructor
  · intro name
    constructor
    · intro function
      by_cases known : name ∈ (Block.mk label code).captures.known
      · exact .inl known
      · exact .inr (closes function known)
    · rintro (known | found)
      · exact exact.known name known
      · exact (exact.keys found).1
  · intro name known
    by_contra found
    exact (exact.keys (Bool.not_eq_false _ ▸ found)).2 known
  · intro name function read
    exact closes function fun known => exact.escaping name known read
  · exact exact.consistent
  · intro definition there held found
    obtain rfl := exact.held_eq there found
    exact ⟨pairwise_nameSet _, exact.mem_captures_iff (List.Subset.refl _) definition there⟩
  · intro labelled consistent
    obtain ⟨_, ends, known, _⟩ := Block.captures_ends (.mk label code)
    have start : (Block.mk label code).candidates.Above code labelled := by
      constructor
      · intro name mem
        have unread : name ∉ Code.blockValues (.mk label code) := consistent.unread name mem
        refine mem_filter.mpr ⟨mem_nameSet.mpr (consistent.function name mem), ?_⟩
        simpa using unread
      · intro definition there held found
        cases found
    rw [known]
    exact (start.ends consistent nodup ends).known

/-- Classification ends with the greatest set of functions that can be called by their labels. -/
theorem Surface.classification_greatest {program : Surface} (lexed : program.Lexed)
    {resolved : Resolved} {typed : Typed} {settings : Settings}
    (resolves : program.resolve = .ok resolved) (checks : resolved.check settings = .ok typed) :
    ∃ module, typed.lower = .ok module ∧
      (∃ final, Classification.Ends (Code.blockDefinitions module.forward.entry)
        module.forward.entry.candidates final ∧
          module.forward.entry.captures.known = final.known ∧
          module.forward.entry.captures.closures = final.closures) ∧
      module.forward.entry.captures.Greatest module.forward.entry.body := by
  obtain ⟨module, lowered, raw⟩ := exists_lowered lexed resolves checks
  have formed := raw.wellFormed_forward
  exact ⟨module, lowered, module.forward.entry.captures_ends,
    module.forward.entry.greatest_captures formed.names_nodup⟩

/-- `let rec outer x = let rec loop y = let rec again z = loop z in if y = 0 then x else again (y - 1)
in loop x in outer 1`: the function `again` captures nothing until `loop` is found to capture `x`. -/
def Surface.lateClosure : Surface :=
  let name (text : String) : Ident := ⟨text, default, 0⟩
  let var (text : String) (order : Nat) : Expr Ident Mention TypeExpr Span :=
    .var default ⟨name text, order⟩
  let int (value : Int) : Expr Ident Mention TypeExpr Span := .lit default (.int value)
  { body :=
      .letRec default (name "outer") [⟨name "x", none⟩] none
        (.letRec default (name "loop") [⟨name "y", none⟩] none
          (.letRec default (name "again") [⟨name "z", none⟩] none
            (.apply default (var "loop" 0) [var "z" 1])
            (.cond default (.binary default .equals (var "y" 2) (int 0)) (var "x" 3)
              (.apply default (var "again" 4) [.binary default .subtract (var "y" 5) (int 1)])))
          (.apply default (var "loop" 6) [var "x" 7]))
        (.apply default (var "outer" 8) [int 1]) }

theorem Surface.classification_greatest_lateClosure : lateClosure.Lexed ∧
    ∃ resolved typed module, lateClosure.resolve = .ok resolved ∧
      resolved.check { seedBuiltins := false } = .ok typed ∧ typed.lower = .ok module ∧
      module.forward.entry.captures.known = ["outer$1"] ∧
      module.forward.entry.captures.closures.sorted = [("again$5", ["loop$3"]), ("loop$3", ["x$2"])] ∧
      module.forward.entry.captures.Greatest module.forward.entry.body := by
  have lexed : lateClosure.Lexed := by decide +kernel
  obtain ⟨resolved, typed, resolves, checks, test⟩ :=
    exists_of_accepted lateClosure { seedBuiltins := false } fun _ typed => typed.lowersTo fun module =>
      decide (module.forward.entry.captures.known = ["outer$1"]) &&
        decide (module.forward.entry.captures.closures.sorted =
          [("again$5", ["loop$3"]), ("loop$3", ["x$2"])])
  obtain ⟨module, lowered, _, greatest⟩ := classification_greatest lexed resolves checks
  rw [Typed.lowersTo_eq lowered, Bool.and_eq_true, decide_eq_true_eq, decide_eq_true_eq] at test
  exact ⟨lexed, resolved, typed, module, resolves, checks, lowered, test.1, test.2, greatest⟩

end MiddleEnd
