import MiddleEnd.Proofs.Code.Hoist

/-! What the classification of functions finds: every function is known or has a closure, closures
hold names that are read, and one more round would change nothing. -/

namespace MiddleEnd

open List

variable {known : List String} {state : Classification} {back : List Definition}
  {captures : NameMap (List String)} {name : String} {code : Code} {definition : Definition}
  {captures' : NameMap (List String)}

def Code.Reads (code : Code) (name : String) : Prop :=
  ∃ instr ∈ instrs code, name ∈ instr.value.operands

theorem Op.mem_operands_of_reads {op : Op} (read : name ∈ op.reads known) : name ∈ op.operands := by
  cases op with
  | call kind _ _ =>
    by_cases external : kind = .external
    · simpa [reads, operands, external] using read
    · simp only [reads, external, decide_false, Bool.false_or, operands, if_false] at read ⊢
      split at read
      · exact .tail _ read
      · exact read
  | _ => exact read

namespace Code

theorem mem_definitions :
    definition ∈ definitions code ↔ ∃ instr ∈ instrs code, instr.name = definition.name ∧
      ∃ recursive, instr.value = .function definition.params definition.body recursive := by
  induction code using Code.induction with
  | nil => simp [definitions, instrs]
  | op ih => simp [definitions, instrs, ih]
  | branch yes_ih no_ih ih =>
    simp only [definitions, blockDefinitions, instrs, blockInstrs, mem_append, mem_cons,
      yes_ih, no_ih, ih]
    grind
  | @function _ name _ params label body recursive _ body_ih ih =>
    simp only [definitions, blockDefinitions, instrs, blockInstrs, mem_append, mem_cons, body_ih, ih]
    obtain ⟨own, own_params, own_body⟩ := definition
    have here : (name = own ∧ ∃ recursive', (Value.function params (.mk label body) recursive) =
        .function own_params own_body recursive') ↔
          own = name ∧ own_params = params ∧ own_body = .mk label body := by
      simp [eq_comm]
    simp only [Definition.mk.injEq, or_and_right, exists_or, exists_eq_left, here]
    exact or_left_comm

theorem mem_free (mem : name ∈ free known captures code) :
    Reads code name ∨ ∃ function held, captures.find? function = some held ∧ name ∈ held := by
  induction code using Code.induction with
  | nil => cases mem
  | op ih =>
    obtain ⟨mem, _⟩ := mem_filter.mp mem
    rcases mem_append.mp mem with read | later
    · exact .inl ⟨_, .head _, Op.mem_operands_of_reads read⟩
    · refine (ih later).imp_left ?_
      rintro ⟨instr, there, read⟩
      exact ⟨instr, mem_cons_of_mem _ there, read⟩
  | @branch id own span test label yes label' no rest yes_ih no_ih ih =>
    have within {part : Code} (inside : instrs part ⊆
        instrs (⟨id, own, span, .branch test (.mk label yes) (.mk label' no)⟩ :: rest)) :
        Reads part name → Reads _ name := fun ⟨instr, there, read⟩ => ⟨instr, inside there, read⟩
    obtain ⟨mem, _⟩ := mem_filter.mp mem
    simp only [blockFree, mem_cons, mem_append] at mem
    rcases mem with rfl | (mem | mem) | mem
    · exact .inl ⟨_, mem_instrs (.head _), .head _⟩
    · exact (yes_ih mem).imp_left (within fun _ there => by simp [instrs, blockInstrs, there])
    · exact (no_ih mem).imp_left (within fun _ there => by simp [instrs, blockInstrs, there])
    · exact (ih mem).imp_left (within fun _ there => by simp [instrs, there])
  | @function _ own _ _ _ _ _ _ body_ih ih =>
    obtain ⟨mem, _⟩ := mem_filter.mp mem
    rcases mem_append.mp mem with held | later
    · split at held
      · cases held
      · cases found : captures.find? own with
        | none => simp [found] at held
        | some names => exact .inr ⟨own, names, found, by simpa [found] using held⟩
    · refine (ih later).imp_left ?_
      rintro ⟨instr, there, read⟩
      exact ⟨instr, by simp [instrs, there], read⟩

end Code

theorem Code.blockFree_eq (known : List String) (captures : NameMap (List String)) (block : Block) :
    blockFree known captures block = free known captures block.body := by
  cases block
  rfl

theorem Definition.mem_captures : name ∈ definition.captures known captures ↔
      name ∈ Code.free known captures definition.body.body ∧ name ∉ definition.params ∧
        name ≠ definition.name := by
  rw [Definition.captures, mem_nameSet, mem_filter, Code.blockFree_eq]
  simp

namespace Classification

structure Good (whole : Code) (state : Classification) : Prop where
  known : ∀ name ∈ state.known, name ∈ (Code.definitions whole).map Definition.name
  read {name : String} {held : List String} (found : state.captures.find? name = some held) :
    ∀ inside ∈ held, Code.Reads whole inside
  keys {name : String} (found : state.captures.contains name = true) :
    name ∈ (Code.definitions whole).map Definition.name

variable {whole : Code}

theorem known_update (state : Classification) (definition : Definition) :
    (state.update definition).known.Sublist state.known := by
  unfold update
  dsimp only
  split
  · exact .refl _
  · exact filter_sublist

theorem Good.update (good : Good whole state) (mem : definition ∈ Code.definitions whole) :
    Good whole (state.update definition) := by
  have read : ∀ inside ∈ definition.captures state.known state.captures, Code.Reads whole inside := by
    intro inside there
    rcases Code.mem_free (Definition.mem_captures.mp there).1 with ⟨instr, deep, read⟩ | ⟨_, _, found, held⟩
    · obtain ⟨_, top, _, _, shape⟩ := Code.mem_definitions.mp mem
      refine ⟨instr, Code.mem_instrs_of_block top ?_ deep, read⟩
      simp [shape, Value.blocks]
    · exact good.read found inside held
  constructor
  · exact fun name known => good.known name ((known_update state definition).subset known)
  · intro name held found
    simp only [Classification.update, NameMap.find?_insert] at found
    split at found
    · cases found
      exact read
    · exact good.read found
  · intro name found
    rcases (NameMap.contains_insert _ _ _ _).mp found with rfl | found
    · exact mem_map_of_mem mem
    · exact good.keys found

theorem foldl_induction {motive : Classification → Prop} {definitions : List Definition}
    (step : ∀ definition ∈ definitions, ∀ state, motive state → motive (state.update definition))
    (start : motive state) : motive (definitions.foldl update state) := by
  induction definitions generalizing state with
  | nil => exact start
  | cons definition _ ih =>
    exact ih (fun other mem => step other (.tail _ mem)) (step definition (.head _) state start)

theorem Good.round (good : Good whole state) : Good whole (round (Code.definitions whole) state) :=
  foldl_induction (fun _ mem _ good => good.update mem) good

theorem Good.rounds (good : Good whole state) (fuel : Nat) :
    Good whole (rounds (Code.definitions whole) fuel state) := by
  induction fuel generalizing state with
  | zero => exact good
  | succ _ ih =>
    rw [Classification.rounds]
    split
    · exact good.round
    · exact ih good.round

theorem known_round (definitions : List Definition) (state : Classification) :
    (round definitions state).known.Sublist state.known :=
  foldl_induction (motive := fun later => later.known.Sublist state.known)
    (fun definition _ later sublist => (known_update later definition).trans sublist) (.refl _)

theorem known_rounds (definitions : List Definition) (fuel : Nat) (state : Classification) :
    (rounds definitions fuel state).known.Sublist state.known := by
  induction fuel generalizing state with
  | zero => exact .refl _
  | succ _ ih =>
    rw [Classification.rounds]
    split
    · exact known_round definitions state
    · exact (ih (round definitions state)).trans (known_round definitions state)

theorem exists_last_round (definitions : List Definition) {fuel : Nat}
    (enough : state.known.length < fuel) :
    ∃ before, rounds definitions fuel state = round definitions before ∧
      (round definitions before).known = before.known := by
  induction fuel generalizing state with
  | zero => omega
  | succ _ ih =>
    have sublist := known_round definitions state
    rw [Classification.rounds]
    split
    · next same => exact ⟨state, rfl, sublist.eq_of_length same⟩
    · next changed =>
      have shorter := sublist.length_le
      exact ih (by omega)

end Classification

theorem Code.free_congr (same : ∀ definition ∈ definitions code, definition.name ∉ known →
      captures.find? definition.name = captures'.find? definition.name) :
    free known captures code = free known captures' code := by
  induction code using Code.induction with
  | nil => rfl
  | op ih => rw [free, free, ih same]
  | branch yes_ih no_ih ih =>
    simp only [definitions, blockDefinitions, mem_append] at same
    simp only [free, blockFree]
    rw [yes_ih fun definition mem => same definition (.inl (.inl mem)),
      no_ih fun definition mem => same definition (.inl (.inr mem)),
      ih fun definition mem => same definition (.inr mem)]
  | @function _ name _ params label body _ _ body_ih ih =>
    simp only [definitions, blockDefinitions, mem_append, mem_cons] at same
    rw [free, free, ih fun definition mem => same definition (.inr (.inr mem))]
    split
    · rfl
    · next unknown =>
      rw [same ⟨name, params, .mk label body⟩ (.inr (.inl rfl)) (by simpa using unknown)]

theorem Definition.captures_congr
    (same : ∀ inner ∈ Code.definitions definition.body.body, inner.name ∉ known →
      captures.find? inner.name = captures'.find? inner.name) :
    definition.captures known captures = definition.captures known captures' := by
  rw [Definition.captures, Definition.captures, Code.blockFree_eq, Code.blockFree_eq,
    Code.free_congr same]

theorem Code.definitions_trans {inner : Definition} (mem : definition ∈ definitions code)
    (inside : inner ∈ definitions definition.body.body) :
    inner ∈ definitions code := by
  obtain ⟨_, top, _, _, shape⟩ := mem_definitions.mp mem
  obtain ⟨instr', deep, named, shape'⟩ := mem_definitions.mp inside
  refine mem_definitions.mpr ⟨instr', mem_instrs_of_block top ?_ deep, named, shape'⟩
  simp [shape, Value.blocks]

namespace Classification

structure Settled (known : List String) (captures : NameMap (List String))
    (definition : Definition) : Prop where
  found : captures.find? definition.name = some (definition.captures known captures)
  empty : definition.name ∈ known → definition.captures known captures = []

theorem Settled.later (settled : Settled known captures definition)
    (mem : definition ∈ Code.definitions code) (same : ∀ definition ∈ Code.definitions code,
      captures.find? definition.name = captures'.find? definition.name) :
    Settled known captures' definition := by
  have same_captures : definition.captures known captures = definition.captures known captures' :=
    Definition.captures_congr fun inner inside _ => same inner (Code.definitions_trans mem inside)
  constructor
  · rw [← same definition mem, settled.found, same_captures]
  · rw [← same_captures]
    exact settled.empty

theorem captures_foldl {definitions : List Definition}
    (other : ∀ definition ∈ definitions, definition.name ≠ name) :
    (definitions.foldl update state).captures.find? name = state.captures.find? name :=
  foldl_induction (motive := fun later => later.captures.find? name = state.captures.find? name)
    (fun definition mem later same => by
      rw [update, NameMap.find?_insert, if_neg (other definition mem).symm, same]) rfl

theorem known_middle {front : List Definition}
    (same : ((front ++ back).foldl update state).known = state.known) :
    (front.foldl update state).known = state.known := by
  rw [foldl_append] at same
  have upper := known_round front state
  have lower := known_round back (front.foldl update state)
  rw [Classification.round, same] at lower
  exact upper.eq_of_length (Nat.le_antisymm upper.length_le lower.length_le)

theorem settled_append (nodup : (((Code.definitions code) ++ back).map Definition.name).Nodup)
    (settled : ∀ definition ∈ Code.definitions code, Settled known state.captures definition) :
    ∀ definition ∈ Code.definitions code,
      Settled known (back.foldl update state).captures definition := by
  intro definition mem
  refine (settled definition mem).later mem fun _ there => (captures_foldl ?_).symm
  rw [map_append, nodup_append] at nodup
  intro _ later_member same
  exact nodup.2.2 _ (mem_map_of_mem there) _ (mem_map_of_mem later_member) same.symm

theorem settled_update {params : List String} {label : String} {body : Code}
    (fresh : name ∉ (Code.definitions body).map Definition.name)
    (same : (state.update ⟨name, params, .mk label body⟩).known = state.known) :
    Settled state.known (state.update ⟨name, params, .mk label body⟩).captures
      ⟨name, params, .mk label body⟩ := by
  have captured : Definition.captures ⟨name, params, .mk label body⟩ state.known
      (state.update ⟨name, params, .mk label body⟩).captures =
        Definition.captures ⟨name, params, .mk label body⟩ state.known state.captures := by
    refine Definition.captures_congr fun inner inside _ => ?_
    rw [update, NameMap.find?_insert, if_neg]
    intro named
    exact fresh (mem_map.mpr ⟨inner, inside, named⟩)
  constructor
  · rw [captured, update, NameMap.find?_insert, if_pos rfl]
  · intro known
    rw [captured]
    simp only [update] at same
    split at same
    · next empty => exact List.isEmpty_iff.mp empty
    · have kept : name ∈ state.known.filter (· != name) := by
        rw [same]
        exact known
      simp at kept

theorem settled_foldl (nodup : ((Code.definitions code).map Definition.name).Nodup)
    (same : ((Code.definitions code).foldl update state).known = state.known) :
    ∀ definition ∈ Code.definitions code,
      Settled state.known ((Code.definitions code).foldl update state).captures definition := by
  induction code using Code.induction generalizing state with
  | nil => exact nofun
  | op ih => exact ih nodup same
  | @branch _ name _ _ _ _ _ no rest yes_ih no_ih ih =>
    simp only [Code.definitions, Code.blockDefinitions] at nodup same ⊢
    have after_no := known_middle same
    have after_yes := known_middle after_no
    have nodup_yes := nodup
    rw [append_assoc] at nodup_yes
    have nodup_parts := nodup
    simp only [map_append, nodup_append] at nodup_parts
    rw [foldl_append, foldl_append] at same
    rw [foldl_append] at after_no
    have yes_settled := settled_append nodup_yes (yes_ih nodup_parts.1.1 after_yes)
    have no_settled := no_ih nodup_parts.1.2.1 (after_no.trans after_yes.symm)
    have no_nodup : ((Code.definitions no ++ Code.definitions rest).map Definition.name).Nodup := by
      rw [map_append] at nodup_yes
      exact (nodup_append.mp nodup_yes).2.1
    have rest_settled := ih nodup_parts.2.1 (same.trans after_no.symm)
    rw [after_yes] at no_settled
    rw [after_no] at rest_settled
    intro definition mem
    rw [foldl_append, foldl_append]
    rcases mem_append.mp mem with mem | mem
    · rcases mem_append.mp mem with mem | mem
      · rw [← foldl_append]
        exact yes_settled definition mem
      · exact settled_append no_nodup no_settled definition mem
    · exact rest_settled definition mem
  | @function id name span params label body recursive rest body_ih ih =>
    simp only [Code.definitions, Code.blockDefinitions] at nodup same ⊢
    let own : Definition := ⟨name, params, .mk label body⟩
    let first : Code := [⟨id, name, span, .function params (.mk label body) recursive⟩]
    have split : Code.definitions body ++ own :: Code.definitions rest =
        Code.definitions first ++ Code.definitions rest := by
      simp [first, own, Code.definitions, Code.blockDefinitions]
    rw [split] at nodup same ⊢
    have after_first := known_middle same
    have after_body : ((Code.definitions body).foldl update state).known = state.known :=
      known_middle after_first
    have nodup_parts := nodup
    rw [map_append, nodup_append] at nodup_parts
    obtain ⟨nodup_first, nodup_rest, _⟩ := nodup_parts
    have nodup_body : ((Code.definitions body ++ [own]).map Definition.name).Nodup := nodup_first
    have body_parts := nodup_body
    rw [map_append, nodup_append] at body_parts
    have fresh : name ∉ (Code.definitions body).map Definition.name := fun mem =>
      body_parts.2.2 name mem name (.head _) rfl
    have body_settled := settled_append nodup_body (body_ih body_parts.1 after_body)
    have grown : (Code.definitions first).foldl update state =
        ((Code.definitions body).foldl update state).update own := by
      simp [first, own, Code.definitions, Code.blockDefinitions]
    have own_settled := settled_update fresh (by rw [← grown, after_first, after_body])
    have first_settled : ∀ definition ∈ Code.definitions first,
        Settled state.known ((Code.definitions first).foldl update state).captures definition := by
      rw [grown]
      intro definition mem
      rcases mem_append.mp mem with mem | mem
      · exact body_settled definition mem
      · rw [mem_singleton.mp mem, ← after_body]
        exact own_settled
    rw [foldl_append] at same ⊢
    have rest_settled := ih nodup_rest (same.trans after_first.symm)
    rw [after_first] at rest_settled
    intro definition mem
    rcases mem_append.mp mem with mem | mem
    · exact settled_append nodup first_settled definition mem
    · exact rest_settled definition mem

end Classification

/-- The captures of a block are exact: one more round would change nothing. -/
structure Captures.Exact (whole : Code) (captures : Captures) : Prop where
  known : ∀ name ∈ captures.known, name ∈ (Code.definitions whole).map Definition.name
  escaping : ∀ name ∈ captures.known, name ∉ Code.values whole
  closure {definition : Definition} (member : definition ∈ Code.definitions whole)
    (unknown : definition.name ∉ captures.known) :
    captures.closures.find? definition.name =
      some (definition.captures captures.known captures.closures)
  empty {definition : Definition} (member : definition ∈ Code.definitions whole)
    (known : definition.name ∈ captures.known) :
    definition.captures captures.known captures.closures = []
  keys {name : String} (found : captures.closures.contains name = true) :
    name ∈ (Code.definitions whole).map Definition.name ∧ name ∉ captures.known
  read {name : String} {held : List String} (found : captures.closures.find? name = some held) :
    ∀ inside ∈ held, Code.Reads whole inside

theorem NameMap.find?_filter_keys {α : Type} (entries : List (String × α)) (test : String → Bool)
    (name : String) :
    (NameMap.mk (entries.filter fun entry => test entry.1)).find? name =
      if test name then (NameMap.mk entries).find? name else none := by
  simp only [find?]
  induction entries with
  | nil => simp
  | cons entry _ ih =>
    obtain ⟨key, _⟩ := entry
    by_cases same : name = key
    · subst same
      cases holds : test name with
      | true => simp [holds]
      | false => simpa [filter_cons, holds] using ih
    · have differs : (name == key) = false := by simpa using same
      rw [filter_cons, List.lookup_cons, differs]
      cases holds : test key with
      | true => simpa [List.lookup_cons, differs] using ih
      | false => simpa using ih

theorem length_insertName_le (name : String) (names : List String) :
    (insertName name names).length ≤ names.length + 1 := by
  induction names with
  | nil => simp [insertName]
  | cons _ _ ih =>
    rw [insertName]
    split
    · simp
    · split
      · simp
      · simpa using ih

theorem length_nameSet_le (names : List String) : (nameSet names).length ≤ names.length := by
  induction names with
  | nil => simp [nameSet]
  | cons first rest ih =>
    calc (nameSet (first :: rest)).length
        ≤ (nameSet rest).length + 1 := length_insertName_le first (nameSet rest)
      _ ≤ (first :: rest).length := by simpa using ih

theorem Block.exact_captures (block : Block)
    (nodup : ((Code.definitions block.body).map Definition.name).Nodup) :
    block.captures.Exact block.body := by
  obtain ⟨_, code⟩ := block
  simp only [Block.body] at nodup ⊢
  let definitions := Code.definitions code
  let start : Classification :=
    { known := (nameSet (definitions.map Definition.name)).filter fun name =>
        !(Code.values code).contains name }
  have good : start.Good code := by
    constructor
    · intro name known
      exact mem_nameSet.mp (mem_filter.mp known).1
    · intro name held found
      cases found
    · intro name found
      cases found
  have enough : start.known.length < definitions.length + 1 := by
    have filtered : start.known.length ≤ (nameSet (definitions.map Definition.name)).length :=
      length_filter_le _ _
    have few := length_nameSet_le (definitions.map Definition.name)
    rw [length_map] at few
    omega
  obtain ⟨_, ended, same⟩ := Classification.exists_last_round definitions enough
  let final := Classification.rounds definitions (definitions.length + 1) start
  have final_good : final.Good code := good.rounds _
  have settled : ∀ definition ∈ definitions, Classification.Settled final.known final.captures definition := by
    show ∀ definition ∈ definitions, Classification.Settled
      (Classification.rounds _ _ start).known (Classification.rounds _ _ start).captures definition
    rw [ended, same]
    exact Classification.settled_foldl nodup same
  let closures : NameMap (List String) :=
    ⟨final.captures.entries.filter fun entry => !final.known.contains entry.1⟩
  have lookup (name : String) : closures.find? name =
      if !final.known.contains name then final.captures.find? name else none :=
    NameMap.find?_filter_keys final.captures.entries (fun name => !final.known.contains name) name
  have agree (definition : Definition) : definition.captures final.known final.captures =
      definition.captures final.known closures := by
    refine Definition.captures_congr fun _ _ unknown => ?_
    rw [lookup, if_pos (by simpa using unknown)]
  show Captures.Exact code ⟨closures, final.known, _⟩
  constructor
  · exact final_good.known
  · intro name known
    have early := (Classification.known_rounds definitions _ start).subset known
    simpa using (mem_filter.mp early).2
  · intro definition mem unknown
    rw [lookup, if_pos (by simpa using unknown), (settled definition mem).found, agree]
  · intro definition mem known
    rw [← agree]
    exact (settled definition mem).empty known
  · intro name found
    rw [NameMap.contains, lookup] at found
    split at found
    · next unknown => exact ⟨final_good.keys found, by simpa using unknown⟩
    · cases found
  · intro name held found
    rw [lookup] at found
    split at found
    · exact final_good.read found
    · cases found

end MiddleEnd
