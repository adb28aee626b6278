import MiddleEnd.Proofs.Code.Redirect

/-! Forwarding leads every operand past copies and takes out copies that are then unread. What is left
is in scope, has a type for every name, and no block of it ends in a function. Nothing is missed: a temporary
copy is taken out as soon as something reads it, and the end of each block is tried. -/

namespace MiddleEnd

open List

variable {id : Nat} {span : Span} {code whole no : Code} {name : String} {removed : List Nat}
  {middle stop state : Forwarding} {scope names : List String} {copies : NameMap Copy}
  {dropped : List (Nat × String)} {op : Op} {test label : String} {instr : Instr Block} {copy : Copy}
  {label' : String} {yes : Code} {params scope' : List String} {recursive : Bool} {ids : List Nat}

structure Forwarding.Drops (start stop : Forwarding) (dropped : List (Nat × String)) : Prop where
  removed : stop.removed = dropped.map Prod.fst ++ start.removed
  table (name : String) : stop.table.contains name = true ↔
    start.table.contains name = true ∧ name ∉ dropped.map Prod.snd
  types : ∀ name ∉ dropped.map Prod.snd, stop.table.find? name = start.table.find? name

namespace Forwarding.Drops

variable {start : Forwarding} {dropped' : List (Nat × String)}

theorem none (state : Forwarding) : state.Drops state [] :=
  ⟨rfl, by simp, fun _ _ => rfl⟩

theorem trans (first : start.Drops middle dropped) (second : middle.Drops stop dropped') :
    start.Drops stop (dropped' ++ dropped) := by
  constructor
  · rw [second.removed, first.removed, map_append, append_assoc]
  · intro name
    rw [second.table, first.table, map_append, mem_append]
    tauto
  · intro name stays
    rw [map_append, mem_append, not_or] at stays
    rw [second.types name stays.1, first.types name stays.2]

theorem subset (drops : start.Drops stop dropped) : start.removed ⊆ stop.removed := by
  rw [drops.removed]
  exact subset_append_right _ _

end Forwarding.Drops

def Drop (copies : NameMap Copy) (uses : List (String × Role)) (dropped : Nat × String) : Prop :=
  isTemporary dropped.2 = true ∧ ∃ copy role, copies.find? dropped.2 = some copy ∧
    copy.id = dropped.1 ∧ (dropped.2, role) ∈ uses ∧ (role = .callee ∨ copy.isExternal = false)

theorem Drop.mono {uses uses' : List (String × Role)} {dropped : Nat × String}
    (drop : Drop copies uses dropped) (subset : uses ⊆ uses') : Drop copies uses' dropped := by
  obtain ⟨temp, copy, role, here, same, use, reason⟩ := drop
  exact ⟨temp, copy, role, here, same, subset use, reason⟩

def Drained (copies : NameMap Copy) (uses : List (String × Role)) (removed : List Nat) : Prop :=
  ∀ name role, (name, role) ∈ uses → role ≠ .result → isTemporary name = true →
    ∀ copy, copies.find? name = some copy → (copy.isExternal = true → role = .callee) → copy.id ∈ removed

section

variable {uses uses' : List (String × Role)} {removed' : List Nat}

theorem Drained.mono (drained : Drained copies uses removed) (subset : removed ⊆ removed') :
    Drained copies uses removed' := fun name role use plain temp copy found called =>
  subset (drained name role use plain temp copy found called)

theorem Drained.append (first : Drained copies uses removed) (second : Drained copies uses' removed) :
    Drained copies (uses ++ uses') removed := by
  intro name role use
  rcases mem_append.mp use with use | use
  · exact first name role use
  · exact second name role use

theorem Drained.value (read : ∀ copy, copies.find? name = some copy → copy.isExternal = false →
    isTemporary name = true → copy.id ∈ removed) : Drained copies [(name, .value)] removed := by
  intro _ _ use _ temp copy found called
  cases mem_singleton.mp use
  refine read copy found ?_ temp
  by_contra outside
  cases called (by simpa using outside)

end

structure Forwarding.Knows (state : Forwarding) (copies : NameMap Copy) (scope : List String) :
    Prop where
  sound (name : String) (copy : Copy) (here : state.copies.find? name = some copy) :
    copies.find? name = some copy
  complete : ∀ name ∈ scope, state.copies.find? name = copies.find? name

theorem Forwarding.Knows.of_copies_eq {later : Forwarding} (knows : state.Knows copies scope)
    (same : later.copies = state.copies) : later.Knows copies scope :=
  ⟨fun name copy here => knows.sound name copy (same ▸ here), fun name mem =>
    same ▸ knows.complete name mem⟩

namespace Forward

theorem remove_spec (id : Nat) (name : String) (state : Forwarding) :
    Gives (remove id name) state fun _ later =>
      later.copies = state.copies ∧ state.Drops later [(id, name)] := by
  refine .modify ⟨rfl, rfl, fun other => ?_, fun other stays => ?_⟩
  · rw [NameMap.contains_erase, and_comm]
    simp
  · exact (NameMap.find?_erase ..).trans (if_neg fun same => stays (by simp [same]))

structure Sweeps (names : List String) (state later : Forwarding) : Prop where
  same : later.copies = state.copies
  drops : ∃ dropped, state.Drops later dropped ∧ ∀ drop ∈ dropped, drop.2 ∈ names ∧ isTemporary drop.2 = true ∧
    ∃ copy, state.copies.find? drop.2 = some copy ∧ copy.id = drop.1
  drained : ∀ name ∈ names, isTemporary name = true →
    ∀ copy, state.copies.find? name = some copy → copy.id ∈ later.removed

theorem dropCopy_spec (name : String) (state : Forwarding) :
    Gives (dropCopy name) state fun _ later => Sweeps [name] state later := by
  have nothing (known : isTemporary name = true → ∀ copy, state.copies.find? name = some copy →
      copy.id ∈ state.removed) : Sweeps [name] state state :=
    ⟨rfl, ⟨[], .none state, nofun⟩, forall_mem_singleton.mpr known⟩
  unfold dropCopy
  split
  · next temp =>
    refine .get ?_
    split
    · next absent =>
      refine .set ⟨rfl, ⟨[], ⟨rfl, by simp, fun _ _ => rfl⟩, forall_mem_nil _⟩,
        forall_mem_singleton.mpr ?_⟩
      intro _ copy here
      cases absent.symm.trans here
    · next copy here =>
      split
      · refine (remove_spec copy.id name state).weaken fun _ later ⟨same, drops⟩ => ?_
        refine ⟨same, ⟨_, drops, forall_mem_singleton.mpr ⟨mem_singleton_self _, temp, copy, here, rfl⟩⟩,
          forall_mem_singleton.mpr fun _ other found => ?_⟩
        cases here.symm.trans found
        rw [drops.removed]
        exact .head _
      · next stays =>
        refine .pure (nothing fun _ other found => ?_)
        cases here.symm.trans found
        simpa [isRemoved] using stays
  · next plain => exact .pure (nothing fun temp => absurd temp plain)

theorem dropCopies_spec (names : List String) (state : Forwarding) :
    Gives (dropCopies names) state fun _ later => Sweeps names state later := by
  induction names generalizing state with
  | nil => exact .pure ⟨rfl, ⟨[], .none state, nofun⟩, nofun⟩
  | cons name _ ih =>
    refine .bind (dropCopy_spec name state) fun _ middle ⟨same, ⟨dropped, drops, spec⟩, drained⟩ => ?_
    refine (ih middle).weaken fun _ later ⟨same', ⟨dropped', drops', spec'⟩, drained'⟩ => ?_
    rw [same] at spec' drained'
    refine ⟨same'.trans same, ⟨dropped' ++ dropped, drops.trans drops', forall_mem_append.mpr
      ⟨fun drop mem => ?_, fun drop mem => ?_⟩⟩, forall_mem_cons.mpr ⟨fun temp copy found => ?_, drained'⟩⟩
    · exact (spec' drop mem).imp_left (mem_cons_of_mem _)
    · exact (spec drop mem).imp_left fun own => mem_cons.mpr (.inl (mem_singleton.mp own))
    · exact drops'.subset (drained name (.head _) temp copy found)

structure Consumes (copies : NameMap Copy) (uses : List (String × Role)) (state later : Forwarding) : Prop where
  same : later.copies = state.copies
  drops : ∃ dropped, state.Drops later dropped ∧ ∀ drop ∈ dropped, Drop copies uses drop
  drained : Drained copies uses later.removed

theorem callee_eq (knows : state.Knows copies scope) (closed : Copies.Closed copies scope)
    (fits : ∀ operand ∈ op.operands, operand ∈ scope) :
    Copies.callee state.copies op = Copies.callee copies op := by
  cases op with
  | call kind callee _ =>
    by_cases external : kind = .external
    · simp [Copies.callee, external]
    · have mem : callee ∈ scope := fits callee (by simp [Op.operands, external])
      simp [Copies.callee, external, Copies.external?_congr closed knows.complete mem]
  | _ => rfl

theorem callee_spec (closed : Copies.Closed copies scope)
    (fits : ∀ operand ∈ op.operands, operand ∈ scope) :
    (∀ operand ∈ (Copies.callee copies op).1.operands, operand ∈ op.operands) ∧
      ∀ link ∈ (Copies.callee copies op).2, link ∈ op.callees ∨ isTemporary link = false := by
  cases op with
  | call kind callee _ =>
    by_cases external : kind = .external
    · simp [Copies.callee, external]
    · cases found : Copies.external? copies callee with
      | none => simp [Copies.callee, external, found]
      | some chain =>
        obtain ⟨_, _⟩ := chain
        have mem : callee ∈ scope := fits callee (by simp [Op.operands, external])
        simp only [Copies.callee, external, if_false, found, Op.operands, if_true, Op.callees,
          mem_cons, not_mem_nil, or_false]
        exact ⟨fun operand => .inr, fun link there => Copies.chain_first closed mem found there⟩
  | _ => exact ⟨fun _ => id, forall_mem_nil _⟩

theorem mem_operands_of_values (read : name ∈ op.values) :
    name ∈ (Copies.callee copies op).1.operands := by
  cases op with
  | call kind callee args =>
    have read : name ∈ args := read
    by_cases external : kind = .external
    · simpa [Copies.callee, external, Op.operands] using read
    · cases found : Copies.external? copies callee with
      | none => simpa [Copies.callee, external, found, Op.operands] using .inr read
      | some _ => simpa [Copies.callee, external, found, Op.operands] using read
  | _ => exact read

theorem mem_of_callee (called : name ∈ op.callees) (found : copies.find? name = some copy) :
    name ∈ (Copies.callee copies op).2 ∨
      copy.isExternal = false ∧ name ∈ (Copies.callee copies op).1.operands := by
  cases op with
  | call kind callee _ =>
    by_cases external : kind = .external
    · simp [Op.callees, external] at called
    · obtain rfl : name = callee := by simpa [Op.callees, external] using called
      cases chain : Copies.external? copies name with
      | none =>
        refine .inr ⟨?_, by simp [Copies.callee, external, chain, Op.operands]⟩
        by_contra outside
        rw [Copies.external?_of_external found (by simpa using outside)] at chain
        cases chain
      | some chain' =>
        obtain ⟨_, _⟩ := chain'
        obtain ⟨_, leads⟩ := Copies.external?_eq_some.mp chain
        refine .inl ?_
        simpa [Copies.callee, external, chain] using Copies.mem_chain leads
  | _ => cases called

theorem op_spec (knows : state.Knows copies scope) (closed : Copies.Closed copies scope)
    (fits : ∀ operand ∈ op.operands, operand ∈ scope) (plain : op.redirect copies =
      (Copies.callee copies op).1.mapOperands (Copies.target copies)) :
    Gives (Forward.op op) state fun result later =>
      result = op.redirect copies ∧ Consumes copies (Value.uses (.op op)) state later := by
  refine .get ?_
  dsimp only
  rw [callee_eq knows closed fits]
  obtain ⟨operands_subset, chain_first⟩ := callee_spec closed fits
  refine .bind (dropCopies_spec _ state) fun _ later ⟨same, ⟨dropped, drops, spec⟩, drained⟩ => .pure ?_
  refine ⟨?_, same, ⟨dropped, drops, fun drop mem => ?_⟩, fun name role use _ temp copy found called => ?_⟩
  · rw [plain]
    refine Op.mapOperands_congr fun operand read => Copies.target_congr ?_
    exact knows.complete operand (fits operand (operands_subset operand read))
  · obtain ⟨there, temp, copy, here, same_id⟩ := spec drop mem
    have known := knows.sound _ _ here
    rcases mem_append.mp there with link | read
    · rcases chain_first _ link with called | clean
      · refine ⟨temp, copy, .callee, known, same_id, ?_, .inl rfl⟩
        exact mem_append_left _ (mem_map_of_mem called)
      · rw [clean] at temp
        cases temp
    · obtain ⟨read, is_local⟩ := mem_filter.mp read
      obtain ⟨_, here', inside⟩ := Copies.isLocal_iff.mp is_local
      rw [here] at here'
      cases here'
      have role : (drop.2, .callee) ∈ Value.uses (.op op) ∨ (drop.2, .value) ∈ Value.uses (.op op) :=
        Value.exists_role (operands_subset _ read)
      rcases role with use | use
      · exact ⟨temp, copy, .callee, known, same_id, use, .inl rfl⟩
      · exact ⟨temp, copy, .value, known, same_id, use, .inr inside⟩
  · have known := (knows.complete name (fits name (Value.mem_operands_of_use use))).trans found
    refine drained name ?_ temp copy known
    have read_locally (inside : copy.isExternal = false) (read : name ∈ (Copies.callee copies op).1.operands) :
        name ∈ (Copies.callee copies op).1.operands.filter (Copies.isLocal state.copies) :=
      mem_filter.mpr ⟨read, Copies.isLocal_iff.mpr ⟨copy, known, inside⟩⟩
    simp only [Value.uses, mem_append, mem_map, Prod.mk.injEq] at use
    rcases use with ⟨_, callee, rfl, rfl⟩ | ⟨_, value, rfl, rfl⟩
    · rcases mem_of_callee callee found with link | ⟨inside, read⟩
      · exact mem_append_left _ link
      · exact mem_append_right _ (read_locally inside read)
    · have inside : copy.isExternal = false := by
        by_contra outside
        cases called (by simpa using outside)
      exact mem_append_right _ (read_locally inside (mem_operands_of_values value))

theorem name_spec (knows : state.Knows copies scope) (fits : test ∈ scope) :
    Gives (Forward.name test) state fun result later =>
      result = Copies.target copies test ∧ Consumes copies [(test, .value)] state later := by
  refine .get ?_
  dsimp only
  refine .bind (dropCopies_spec _ state) fun _ later ⟨same, ⟨dropped, drops, spec⟩, drained⟩ => .pure ?_
  have known := knows.complete test fits
  refine ⟨Copies.target_congr known, same, ⟨dropped, drops, fun drop mem => ?_⟩,
    .value fun copy found inside temp => ?_⟩
  · obtain ⟨there, temp, copy, here, same_id⟩ := spec drop mem
    obtain ⟨read, is_local⟩ := mem_filter.mp there
    obtain ⟨_, here', inside⟩ := Copies.isLocal_iff.mp is_local
    rw [here] at here'
    cases here'
    rw [mem_singleton] at read
    exact ⟨temp, copy, .value, knows.sound _ _ here, same_id, by simp [read], .inr inside⟩
  · refine drained test (mem_filter.mpr ⟨mem_singleton_self _, ?_⟩) temp copy (known.trans found)
    exact Copies.isLocal_iff.mpr ⟨copy, known.trans found, inside⟩

theorem code_op {rest : Code} (original : op.Original) :
    Forward.code (⟨id, name, span, .op op⟩ :: rest) = (do
      let value ← Forward.op op
      return ⟨id, name, span, .op value⟩ :: (← Forward.code rest)) := by
  cases op with
  | ref | external => cases original
  | _ => rw [Forward.code] <;> exact nofun

end Forward

structure Copies.Of (copies : NameMap Copy) (whole : Code) : Prop where
  copy : ∀ instr ∈ Code.instrs whole, copies.find? instr.name = instr.copy?
  param : ∀ instr ∈ Code.instrs whole, ∀ name ∈ instr.value.params, copies.find? name = none
  origin {name : String} {copy : Copy} (here : copies.find? name = some copy) :
    ∃ instr ∈ Code.instrs whole, instr.name = name ∧ instr.copy? = some copy
  ids_nodup : (Code.ids whole).Nodup
  plain : ∀ instr ∈ Code.instrs whole, instr.value.Plain

structure Code.Within (whole : Code) (copies : NameMap Copy) (scope : List String) (code : Code) :
    Prop where
  inside : ∀ instr ∈ Code.instrs code, instr ∈ Code.instrs whole
  fits : Code.InScope scope code
  one_role : OneRole (Code.uses code)
  nodup : (Code.defs code).Nodup
  apart : ∀ name ∈ scope, name ∉ Code.defs code
  closed : Copies.Closed copies scope

theorem OneRole.mono {uses uses' : List (String × Role)} (one_role : OneRole uses)
    (subset : uses' ⊆ uses) : OneRole uses' := fun name role role' temp first second =>
  one_role name role role' temp (subset first) (subset second)

theorem Code.uses_mono {code' : Code} (subset : instrs code ⊆ instrs code') :
    uses code ⊆ uses code' := fun _ mem =>
  let ⟨instr, there, use⟩ := mem_flatMap.mp mem
  mem_flatMap.mpr ⟨instr, subset there, use⟩

theorem Code.defs_cons (instr : Instr Block) (rest : Code) :
    defs (instr :: rest) =
      instr.defs ++ (instr.value.blocks.flatMap (fun block => defs block.body) ++ defs rest) := by
  rw [defs, instrs_cons, flatMap_cons, flatMap_append, flatMap_assoc]
  simp only [blockInstrs_eq, defs]

namespace Code.Within

theorem rest {rest : Code} (of : Copies.Of copies whole)
    (within : Within whole copies scope (instr :: rest)) :
    Within whole copies (instr.name :: scope) rest := by
  have subset : Code.instrs rest ⊆ Code.instrs (instr :: rest) := by
    rw [Code.instrs_cons]
    exact subset_cons_of_subset _ (subset_append_right _ _)
  have nodup := within.nodup
  rw [Code.defs_cons, nodup_append] at nodup
  constructor
  · exact fun other mem => within.inside other (subset mem)
  · have fits := within.fits
    obtain ⟨id, name, span, value⟩ := instr
    cases value with
    | op => exact fits.2
    | branch => exact fits.2.2.2
    | function => exact fits.2
  · exact within.one_role.mono (Code.uses_mono subset)
  · exact (nodup_append.mp nodup.2.1).2.1
  · intro name mem defined
    rcases mem_cons.mp mem with rfl | mem
    · exact nodup.2.2 _ (.head _) _ (mem_append_right _ defined) rfl
    · apply within.apart name mem
      rw [Code.defs_cons]
      exact mem_append_right _ (mem_append_right _ defined)
  · intro name mem copy here inside
    rcases mem_cons.mp mem with rfl | mem
    · have own : instr ∈ Code.instrs whole :=
        within.inside instr (Code.mem_instrs (.head _))
      have shape := (of.copy instr own).symm.trans here
      have plain := of.plain instr own
      have fits := within.fits
      obtain ⟨id, name, span, value⟩ := instr
      unfold Instr.copy? at shape
      split at shape
      · next target same =>
        cases shape
        dsimp only at same
        subst same
        exact ⟨.tail _ (fits.1 target (.head _)), plain⟩
      · cases shape
        cases inside
      · cases shape
    · obtain ⟨there, clean⟩ := within.closed name mem copy here inside
      exact ⟨.tail _ there, clean⟩

theorem arm {rest arm : Code} (here : arm = yes ∨ arm = no) (within : Within whole copies scope
      (⟨id, name, span, .branch test (.mk label yes) (.mk label' no)⟩ :: rest)) :
    Within whole copies scope arm := by
  have subset : Code.instrs arm ⊆
      Code.instrs (⟨id, name, span, .branch test (.mk label yes) (.mk label' no)⟩ :: rest) := by
    intro _ mem
    rcases here with rfl | rfl <;> simp [Code.instrs, Code.blockInstrs, mem]
  have nodup := within.nodup
  rw [Code.defs_branch, nodup_cons, nodup_append, nodup_append] at nodup
  constructor
  · exact fun other mem => within.inside other (subset mem)
  · exact here.elim (· ▸ within.fits.2.1) (· ▸ within.fits.2.2.1)
  · exact within.one_role.mono (Code.uses_mono subset)
  · exact here.elim (· ▸ nodup.2.1.1) (· ▸ nodup.2.1.2.1)
  · intro other mem defined
    apply within.apart other mem
    rcases here with rfl | rfl <;> simp [defined]
  · exact within.closed

theorem body {body rest : Code} (of : Copies.Of copies whole) (within : Within whole copies scope
      (⟨id, name, span, .function params (.mk label body) recursive⟩ :: rest)) :
    Within whole copies (name :: params ++ scope) body := by
  have subset : Code.instrs body ⊆
      Code.instrs (⟨id, name, span, .function params (.mk label body) recursive⟩ :: rest) := by
    intro _ mem
    simp [Code.instrs, Code.blockInstrs, mem]
  have nodup := within.nodup
  rw [Code.defs_function, nodup_append] at nodup
  have own := within.inside _ (Code.mem_instrs (.head _))
  have none_copied : ∀ other ∈ name :: params, copies.find? other = none := by
    intro other mem
    rcases mem_cons.mp mem with rfl | mem
    · exact of.copy _ own
    · exact of.param _ own other mem
  constructor
  · exact fun other mem => within.inside other (subset mem)
  · exact within.fits.1
  · exact within.one_role.mono (Code.uses_mono subset)
  · exact (nodup_append.mp nodup.2.1).1
  · intro other mem defined
    rcases mem_append.mp mem with mem | mem
    · exact nodup.2.2 other mem other (mem_append_left _ defined) rfl
    · apply within.apart other mem
      simp [defined]
  · intro other mem copy here inside
    rcases mem_append.mp mem with mem | mem
    · rw [none_copied other mem] at here
      cases here
    · obtain ⟨there, clean⟩ := within.closed other mem copy here inside
      exact ⟨mem_append_right _ there, clean⟩

end Code.Within

def Code.Ending (removed : List Nat) (body : Code) : Prop :=
  ∃ front instr back, body = front ++ instr :: back ∧ instr.id ∉ removed ∧
    instr.value.isFunction = false ∧ (∀ other ∈ back, other.id ∈ removed) ∧
    (back = [] ∨ ∃ more last, back = more ++ [last] ∧ last.value = .op (.ref instr.name))

theorem Code.Ending.later {body : Code} (ending : Ending removed body)
    (kept : ∀ instr ∈ body, instr.id ∉ ids) : Ending (ids ++ removed) body := by
  obtain ⟨front, instr, back, rfl, present, plain, gone, trailing⟩ := ending
  refine ⟨front, instr, back, rfl, ?_, plain, fun other mem =>
    mem_append_right _ (gone other mem), trailing⟩
  rw [mem_append, not_or]
  exact ⟨kept instr (mem_append_right _ (.head _)), present⟩

def Code.Tried (removed : List Nat) (body : Code) : Prop :=
  ∀ front previous last, body.filter (fun instr => !removed.contains instr.id) = front ++ [previous, last] →
    isTemporary last.name = true → last.value = .op (.ref previous.name) → previous.value.isFunction = true

structure Code.Trimmed (removed : List Nat) (body : Code) : Prop where
  ending : Ending removed body
  tried : Tried removed body

theorem Code.Trimmed.later {body : Code} (trimmed : Trimmed removed body)
    (kept : ∀ instr ∈ body, instr.id ∉ ids) : Trimmed (ids ++ removed) body := by
  refine ⟨trimmed.ending.later kept, fun front previous last left => trimmed.tried front previous last ?_⟩
  rw [← left]
  refine filter_congr fun instr mem => ?_
  simp [kept instr mem]

theorem Op.redirect_eq_ref {target : String} (same : op.redirect copies = .ref target) :
    op = .ref target := by
  cases op with
  | ref => exact same
  | call _ callee _ =>
    simp only [Op.redirect, Copies.callee] at same
    split at same
    · cases same
    · split at same <;> cases same
  | _ => cases same

theorem Copies.Of.eq_of_id (of : Copies.Of copies whole) {instr' : Instr Block}
    (mem : instr ∈ Code.instrs whole) (mem' : instr' ∈ Code.instrs whole) (same : instr.id = instr'.id) :
    instr = instr' :=
  inj_on_of_nodup_map of.ids_nodup mem mem' same

theorem Drop.name_eq (of : Copies.Of copies whole) {uses : List (String × Role)}
    {dropped : Nat × String} (drop : Drop copies uses dropped) (mem : instr ∈ Code.instrs whole)
    (same : instr.id = dropped.1) : instr.name = dropped.2 := by
  obtain ⟨_, _, _, here, same_id, _⟩ := drop
  obtain ⟨origin, there, named, is_copy⟩ := of.origin here
  have numbered := Instr.id_copy? is_copy
  rw [← named, of.eq_of_id mem there (same.trans (same_id.symm.trans numbered))]

namespace Forward

theorem dropTrailing_spec (of : Copies.Of copies whole) {front : Code} {last : Instr Block}
    (inside : ∀ instr ∈ front ++ [last], instr ∈ Code.instrs whole)
    (present : last.id ∉ state.removed) (temp : isTemporary last.name = true)
    (plain_last : last.value.isFunction = false) :
    Gives (dropTrailing (Code.redirect copies (front ++ [last]))) state fun _ later =>
      later.copies = state.copies ∧ Code.Trimmed later.removed (front ++ [last]) ∧
        ∃ dropped, state.Drops later dropped ∧ ∀ drop ∈ dropped, drop = (last.id, last.name) ∧
          ∃ copy, copies.find? last.name = some copy ∧ copy.id = last.id ∧ copy.isExternal = false := by
  have nothing (tried : Code.Tried state.removed (front ++ [last])) :
      Gives (pure PUnit.unit : ForwardM PUnit) state fun _ later =>
      later.copies = state.copies ∧ Code.Trimmed later.removed (front ++ [last]) ∧
        ∃ dropped, state.Drops later dropped ∧ ∀ drop ∈ dropped, drop = (last.id, last.name) ∧
          ∃ copy, copies.find? last.name = some copy ∧ copy.id = last.id ∧ copy.isExternal = false :=
    .pure ⟨rfl, ⟨⟨front, last, [], rfl, present, plain_last, forall_mem_nil _, .inl rfl⟩, tried⟩, [],
      .none state, forall_mem_nil _⟩
  have left_over : ((Code.redirect copies (front ++ [last])).filter fun instr =>
      !isRemoved state instr.id).reverse =
        last.redirect copies :: ((front.filter fun instr => !isRemoved state instr.id).reverse.map
          (Instr.redirect copies)) := by
    have kept : isRemoved state last.id = false := by simpa [isRemoved] using present
    have same : (front.map (Instr.redirect copies)).filter (fun instr => !isRemoved state instr.id) =
        (front.filter fun instr => !isRemoved state instr.id).map (Instr.redirect copies) := by
      rw [filter_map]
      rfl
    rw [Code.redirect_eq, map_append, filter_append, reverse_append, same]
    simp [kept]
  refine .get ?_
  rw [left_over]
  have left : (front ++ [last]).filter (fun instr => !state.removed.contains instr.id) =
      front.filter (fun instr => !isRemoved state instr.id) ++ [last] := by
    rw [filter_append, filter_singleton]
    simp [present, isRemoved]
  cases before : (front.filter fun instr => !isRemoved state instr.id).reverse with
  | nil =>
    refine nothing fun first other final same => ?_
    rw [left, reverse_eq_nil_iff.mp before] at same
    have long := congrArg length same
    simp at long
  | cons previous more =>
    have split_front := congrArg reverse before
    rw [reverse_reverse, reverse_cons] at split_front
    rw [split_front, append_assoc] at left
    have untried (is_function : last.value = .op (.ref previous.name) → previous.value.isFunction = true) :
        Code.Tried state.removed (front ++ [last]) := by
      intro _ _ _ same _ is_ref
      obtain ⟨-, ends⟩ := append_inj' (left.symm.trans same) rfl
      cases ends
      exact is_function is_ref
    simp only [map_cons]
    split
    · next target shape =>
      split
      · next droppable =>
        simp only [Bool.and_eq_true, beq_iff_eq, Bool.not_eq_true', Instr.name_redirect,
          Instr.value_redirect, Value.isFunction_redirect] at droppable
        have is_ref : last.value = .op (.ref target) := by
          cases value : last.value with
          | op op =>
            simp only [Instr.value_redirect, value, Value.redirect, Value.op.injEq] at shape
            rw [Op.redirect_eq_ref shape]
          | _ => simp [value, Value.redirect] at shape
        have last_inside := inside last (by simp)
        have clean : isTemporary target = false := by
          have plain := of.plain last last_inside
          rwa [is_ref] at plain
        obtain ⟨first, _, rfl, _, rest_eq⟩ := filter_eq_append_iff.mp split_front
        obtain ⟨gone, back, rfl, _, there, back_eq⟩ := filter_eq_cons_iff.mp rest_eq
        have distinct : previous.id ≠ last.id := by
          intro same
          have same_instr := of.eq_of_id (inside previous (by simp)) last_inside same
          rw [← droppable.1.2, same_instr, temp] at clean
          cases clean
        refine (remove_spec _ _ state).weaken ?_
        rintro _ later ⟨same, drops⟩
        refine ⟨same, ⟨?_, fun begin other final left_now temp' => ?_⟩, _, drops, ?_⟩
        · refine ⟨first ++ gone, previous, back ++ [last], by simp, ?_, ?_, ?_, .inr ⟨back, last, rfl, ?_⟩⟩
          · rw [drops.removed]
            simpa [distinct, isRemoved] using there
          · exact droppable.2
          · intro instr mem
            rw [drops.removed]
            rcases mem_append.mp mem with mem | mem
            · have out := filter_eq_nil_iff.mp back_eq instr mem
              exact mem_cons_of_mem _ (by simpa [isRemoved] using out)
            · simp [mem_singleton.mp mem]
          · rw [is_ref, droppable.1.2]
        · -- What comes last now has a name from the source.
          have narrowed : (first ++ (gone ++ previous :: back) ++ [last]).filter
              (fun instr => !later.removed.contains instr.id) =
                (more.reverse ++ ([previous] ++ [last])).filter (fun instr => instr.id != last.id) := by
            rw [← left, filter_filter, drops.removed]
            refine filter_congr fun instr _ => ?_
            simp [bne, Bool.beq_eq_decide_eq]
          rw [narrowed] at left_now
          have ends : more.reverse.filter (fun instr => instr.id != last.id) ++ [previous] =
              (begin ++ [other]) ++ [final] := by
            simpa [distinct] using left_now
          obtain ⟨-, ends⟩ := append_inj' ends rfl
          cases ends
          cases temp'.symm.trans (droppable.1.2 ▸ clean)
        · intro drop mem
          rw [mem_singleton.mp mem]
          refine ⟨rfl, ⟨last.id, target, false⟩, ?_, rfl, rfl⟩
          rw [of.copy last last_inside, Instr.copy?, is_ref]
      · next stays =>
        refine nothing (untried fun is_ref => ?_)
        obtain rfl : previous.name = target := by
          rw [Instr.value_redirect, is_ref] at shape
          cases shape
          rfl
        simpa [temp] using stays
    · next no_ref =>
      refine nothing (untried fun is_ref => (no_ref previous.name ?_).elim)
      rw [Instr.value_redirect, is_ref]
      rfl

theorem spares (of : Copies.Of copies whole) {uses : List (String × Role)}
    (each : ∀ drop ∈ dropped, Drop copies uses drop)
    (known : ∀ name role, (name, role) ∈ uses → name ∈ names) (inside : instr ∈ Code.instrs whole)
    (apart : instr.name ∉ names) : instr.id ∉ dropped.map Prod.fst := by
  intro mem
  obtain ⟨drop, there, same⟩ := mem_map.mp mem
  have named := (each drop there).name_eq of inside same.symm
  obtain ⟨_, _, role, _, _, use, _⟩ := each drop there
  exact apart (named ▸ known _ role use)

structure Passes (copies : NameMap Copy) (scope : List String) (uses : List (String × Role))
    (state later : Forwarding) : Prop where
  knows : later.Knows copies scope
  drops : ∃ dropped, state.Drops later dropped ∧ ∀ drop ∈ dropped, Drop copies uses drop
  drained : Drained copies uses later.removed

theorem Consumes.passes {later : Forwarding} {uses : List (String × Role)}
    (consumes : Consumes copies uses state later) (knows : state.Knows copies scope) :
    Passes copies scope uses state later :=
  ⟨knows.of_copies_eq consumes.same, consumes.drops, consumes.drained⟩

theorem Passes.known {later : Forwarding} {uses : List (String × Role)}
    (passes : Passes copies scope uses state later) (knows : later.Knows copies scope') :
    Passes copies scope' uses state later :=
  ⟨knows, passes.drops, passes.drained⟩

theorem Passes.spares {later : Forwarding} {uses : List (String × Role)}
    (passes : Passes copies scope uses state later) (of : Copies.Of copies whole)
    (known : ∀ name role, (name, role) ∈ uses → name ∈ names) (inside : instr ∈ Code.instrs whole)
    (apart : instr.name ∉ names) (present : instr.id ∉ state.removed) : instr.id ∉ later.removed := by
  obtain ⟨_, drops, each⟩ := passes.drops
  rw [drops.removed, mem_append, not_or]
  exact ⟨Forward.spares of each known inside apart, present⟩

theorem Passes.trans {later : Forwarding} {uses uses' : List (String × Role)}
    (first : Passes copies scope uses state middle) (second : Passes copies scope' uses' middle later) :
    Passes copies scope' (uses ++ uses') state later := by
  obtain ⟨dropped, drops, each⟩ := first.drops
  obtain ⟨dropped', drops', each'⟩ := second.drops
  refine ⟨second.knows, ⟨dropped' ++ dropped, drops.trans drops', fun drop mem => ?_⟩,
    (first.drained.mono drops'.subset).append second.drained⟩
  rcases mem_append.mp mem with mem | mem
  · exact (each' drop mem).mono (subset_append_right _ _)
  · exact (each drop mem).mono (subset_append_left _ _)

def Endings (removed : List Nat) (code : Code) : Prop :=
  ∀ instr ∈ Code.instrs code, ∀ block ∈ instr.value.blocks, Code.Trimmed removed block.body

section

variable {uses : List (String × Role)}

theorem Trimmed.later (trimmed : Code.Trimmed state.removed code)
    (passes : Passes copies scope uses state stop) (of : Copies.Of copies whole)
    (known : ∀ name role, (name, role) ∈ uses → name ∈ names)
    (inside : ∀ instr ∈ code, instr ∈ Code.instrs whole)
    (apart : ∀ instr ∈ code, instr.name ∉ names) : Code.Trimmed stop.removed code := by
  obtain ⟨_, drops, each⟩ := passes.drops
  rw [drops.removed]
  exact Code.Trimmed.later trimmed fun other there =>
    Forward.spares of each known (inside other there) (apart other there)

theorem Endings.later (endings : Endings state.removed code)
    (passes : Passes copies scope uses state stop) (of : Copies.Of copies whole)
    (known : ∀ name role, (name, role) ∈ uses → name ∈ names)
    (inside : ∀ instr ∈ Code.instrs code, instr ∈ Code.instrs whole)
    (apart : ∀ instr ∈ Code.inner code, instr.name ∉ names) : Endings stop.removed code := by
  intro instr mem block here
  refine Trimmed.later (endings instr mem block here) passes of known ?_ ?_
  · intro other there
    exact inside other (Code.mem_instrs_of_block mem here (Code.mem_instrs there))
  · intro other there
    exact apart other (Code.mem_inner_of_block mem here (Code.mem_instrs there))

end

def Spec (whole : Code) (copies : NameMap Copy) (code : Code) : Prop :=
  ∀ {scope : List String} {state : Forwarding}, Code.Within whole copies scope code →
    state.Knows copies scope → (∀ instr ∈ Code.instrs code, instr.id ∉ state.removed) →
      Gives (Forward.code code) state fun result later =>
        result = Code.redirect copies code ∧
          Passes copies (code.map Instr.name ++ scope) (Code.uses code) state later ∧
          Endings later.removed code

theorem block_spec (of : Copies.Of copies whole) {body : Code} (spec : Spec whole copies body)
    (within : Code.Within whole copies scope body) (knows : state.Knows copies scope)
    (present : ∀ instr ∈ Code.instrs body, instr.id ∉ state.removed)
    (ends : Block.Ends (.mk label body)) (one_role : OneRole (Code.uses body ++
      (Block.result? (.mk label body)).toList.map (·, .result))) :
    Gives (Forward.block (.mk label body)) state fun result later =>
      result = .mk label (Code.redirect copies body) ∧
        Passes copies scope (Code.uses body ++
          (Block.result? (.mk label body)).toList.map (·, .result)) state later ∧
        Endings later.removed body ∧ Code.Trimmed later.removed body := by
  rw [Forward.block]
  refine .bind (spec within knows present) ?_
  rintro _ middle ⟨rfl, passes, endings⟩
  obtain ⟨front, last, rfl, temp, plain_last⟩ := ends
  have own : last ∈ front ++ [last] := by simp
  have inside := within.inside last (Code.mem_instrs own)
  have shallow := Code.not_mem_inner within.nodup own
  have result_only : Block.result? (.mk label (front ++ [last])) = some last.name := by
    simp [Block.result?, Block.body]
  rw [result_only] at one_role ⊢
  have unread (role : Role) : (last.name, role) ∉ Code.uses (front ++ [last]) := by
    intro use
    have same := one_role last.name role .result temp (mem_append_left _ use) (by simp)
    rw [same] at use
    exact shallow (Code.mem_inner_of_result use)
  have still_there : last.id ∉ middle.removed := by
    obtain ⟨dropped, drops, each⟩ := passes.drops
    rw [drops.removed, mem_append, not_or]
    refine ⟨fun mem => ?_, present last (Code.mem_instrs own)⟩
    obtain ⟨drop, there, same⟩ := mem_map.mp mem
    have named := (each drop there).name_eq of inside same.symm
    obtain ⟨_, _, role, _, _, use, _⟩ := each drop there
    exact unread role (named ▸ use)
  have all_inside : ∀ instr ∈ front ++ [last], instr ∈ Code.instrs whole := fun instr mem =>
    within.inside instr (Code.mem_instrs mem)
  refine .bind (dropTrailing_spec of all_inside still_there temp plain_last) ?_
  rintro _ later ⟨same_copies, trimmed, dropped, drops, each⟩
  have trailing : Passes copies scope [(last.name, .result)] middle later := by
    have known := passes.knows.of_copies_eq same_copies
    refine ⟨⟨known.sound, fun name mem => known.complete name (mem_append_right _ mem)⟩,
      ⟨dropped, drops, fun drop mem => ?_⟩, fun name role use plain => ?_⟩
    · obtain ⟨rfl, copy, here, same_id, outside⟩ := each drop mem
      exact ⟨temp, copy, .result, here, same_id, mem_singleton.mpr rfl, .inr outside⟩
    · cases mem_singleton.mp use
      exact absurd rfl plain
  refine .pure ⟨rfl, passes.trans trailing, ?_, trimmed⟩
  have named_last : ∀ name role, (name, role) ∈ [(last.name, Role.result)] → name ∈ [last.name] := by
    simp
  refine endings.later trailing of named_last within.inside ?_
  intro instr mem named
  apply shallow
  rw [← mem_singleton.mp named]
  exact mem_flatMap.mpr ⟨instr, mem, .head _⟩

theorem record_spec (knows : state.Knows copies scope) (here : copies.find? name = some copy)
    {uses : List (String × Role)} (clean : ∀ name role, (name, role) ∈ uses → isTemporary name = false) :
    Gives (record name copy) state fun _ later => Passes copies (name :: scope) uses state later := by
  have found (other : String) : (state.copies.insert name copy).find? other =
      if other = name then copies.find? name else state.copies.find? other := by
    rw [NameMap.find?_insert, here]
  refine .modify ⟨⟨fun other known seen => ?_, fun other mem => ?_⟩, ⟨[], ⟨rfl, by simp, fun _ _ => rfl⟩, nofun⟩,
    fun other role use _ temp => nomatch temp.symm.trans (clean other role use)⟩
  · rw [found] at seen
    split at seen
    · next same => rwa [same]
    · exact knows.sound other known seen
  · dsimp only
    rw [found]
    split
    · next same => rw [same]
    · next other_name => exact knows.complete other ((mem_cons.mp mem).resolve_left other_name)

theorem knows_append (knows : state.Knows copies scope)
    (plain : ∀ name ∈ names, copies.find? name = none) : state.Knows copies (names ++ scope) := by
  refine ⟨knows.sound, fun name mem => ?_⟩
  rcases mem_append.mp mem with own | around
  · rw [plain name own, Option.eq_none_iff_forall_ne_some]
    intro copy here
    have impossible := knows.sound name copy here
    rw [plain name own] at impossible
    cases impossible
  · exact knows.complete name around

theorem Passes.congr {later : Forwarding} {uses uses' : List (String × Role)}
    (passes : Passes copies scope uses state later) (same : ∀ use, use ∈ uses ↔ use ∈ uses') :
    Passes copies scope uses' state later := by
  obtain ⟨knows, ⟨dropped, drops, each⟩, drained⟩ := passes
  exact ⟨knows, ⟨dropped, drops, fun drop mem => (each drop mem).mono fun use => (same use).mp⟩,
    fun name role use => drained name role ((same _).mpr use)⟩

theorem rest_spec (of : Copies.Of copies whole) {result : Instr Block} {rest : Code}
    (within : Code.Within whole copies scope (instr :: rest))
    (present : ∀ instr ∈ Code.instrs rest, instr.id ∉ state.removed)
    (same : result = instr.redirect copies)
    (first : Passes copies (instr.name :: scope) (Code.uses [instr]) state middle)
    (endings : Endings middle.removed [instr]) (spec : Spec whole copies rest) :
    Gives (Forward.code rest >>= fun rest => pure (result :: rest)) middle fun code later =>
      code = Code.redirect copies (instr :: rest) ∧
        Passes copies ((instr :: rest).map Instr.name ++ scope) (Code.uses (instr :: rest)) state later ∧
        Endings later.removed (instr :: rest) := by
  have rest_within := within.rest of
  have defs_split : Code.defs (instr :: rest) = Code.defs [instr] ++ Code.defs rest :=
    Code.defs_append [instr] rest
  have uses_split : Code.uses (instr :: rest) = Code.uses [instr] ++ Code.uses rest :=
    Code.uses_append [instr] rest
  have nodup := within.nodup
  rw [defs_split, nodup_append] at nodup
  have first_fits : Code.InScope scope [instr] :=
    (Code.inScope_append.mp (within.fits : Code.InScope scope ([instr] ++ rest))).1
  have first_known (name : String) (role : Role) (use : (name, role) ∈ Code.uses [instr]) :
      name ∈ scope ++ Code.defs [instr] :=
    mem_append.mpr (first_fits.mem_of_use use)
  have rest_known (name : String) (role : Role) (use : (name, role) ∈ Code.uses rest) :
      name ∈ (instr.name :: scope) ++ Code.defs rest :=
    mem_append.mpr (rest_within.fits.mem_of_use use)
  have rest_present : ∀ instr ∈ Code.instrs rest, instr.id ∉ middle.removed := by
    intro other mem
    refine first.spares of first_known (rest_within.inside other mem) ?_ (present other mem)
    have defined : other.name ∈ Code.defs rest := mem_flatMap.mpr ⟨other, mem, .head _⟩
    intro known
    rcases mem_append.mp known with around | own
    · apply within.apart _ around
      rw [defs_split]
      exact mem_append_right _ defined
    · exact nodup.2.2 _ own _ defined rfl
  refine .bind (spec rest_within first.knows rest_present) ?_
  rintro _ later ⟨rfl, passes, rest_endings⟩
  refine .pure ⟨?_, ?_, ?_⟩
  · rw [same, Code.redirect_eq, Code.redirect_eq, map_cons]
  · have both := first.trans passes
    rw [← uses_split] at both
    refine both.known ⟨both.knows.sound, fun name mem => both.knows.complete name ?_⟩
    simp only [map_cons, cons_append, mem_cons, mem_append] at mem ⊢
    tauto
  · have kept := endings.later passes of rest_known (fun other mem => within.inside other (by
      rw [show instr :: rest = [instr] ++ rest from rfl, Code.instrs_append]
      exact mem_append_left _ mem)) ?_
    · intro other mem
      rw [show instr :: rest = [instr] ++ rest from rfl, Code.instrs_append] at mem
      exact (mem_append.mp mem).elim (kept other) (rest_endings other)
    · intro other deep known
      have defined : other.name ∈ Code.defs [instr] :=
        ((Code.instrs_perm [instr]).flatMap_right Instr.defs).mem_iff.mpr
          (mem_flatMap.mpr ⟨other, mem_append_right _ deep, .head _⟩)
      simp only [cons_append, mem_cons, mem_append] at known
      rcases known with same | around | rest_defined
      · have shallow := Code.not_mem_inner nodup.1 (mem_singleton.mpr rfl)
        exact shallow (same ▸ mem_flatMap.mpr ⟨other, deep, .head _⟩)
      · apply within.apart _ around
        rw [defs_split]
        exact mem_append_left _ defined
      · exact nodup.2.2 _ defined _ rest_defined rfl

theorem op_instr_spec (of : Copies.Of copies whole) {rest : Code} (spec : Spec whole copies rest) :
    Spec whole copies (⟨id, name, span, .op op⟩ :: rest) := by
  intro scope state within knows present
  have own := within.inside _ (Code.mem_instrs (.head _))
  have here := of.copy _ own
  have rest_present : ∀ instr ∈ Code.instrs rest, instr.id ∉ state.removed := fun other mem =>
    present other (.tail _ mem)
  have no_blocks (removed : List Nat) : Endings removed [⟨id, name, span, .op op⟩] := by
    simp [Endings, Code.instrs, Value.blocks]
  rcases op.copy_or_original with ⟨target, rfl⟩ | ⟨target, rfl⟩ | original
  · rw [Forward.code]
    refine .bind (record_spec knows here fun other _ use => ?_) fun _ middle first =>
      rest_spec of within rest_present rfl first (no_blocks _) spec
    obtain rfl : other = target := congrArg Prod.fst (mem_singleton.mp use)
    exact of.plain _ own
  · rw [Forward.code]
    exact .bind (record_spec knows here fun _ _ use => by cases use) fun _ middle first =>
      rest_spec of within rest_present rfl first (no_blocks _) spec
  · rw [code_op original]
    refine .bind (op_spec knows within.closed within.fits.1 original.redirect_eq) ?_
    rintro _ middle ⟨rfl, consumes⟩
    have unknown : ∀ other ∈ [name], copies.find? other = none := by
      simpa [original.copy?_eq] using here
    have first : Passes copies (name :: scope) (Code.uses [⟨id, name, span, .op op⟩]) state middle := by
      have passes := consumes.passes knows
      exact (passes.known (knows_append passes.knows unknown)).congr (by simp [Code.uses, Code.instrs])
    exact rest_spec of within rest_present rfl first (no_blocks _) spec

theorem block_known (label : String) (fits : Code.InScope scope code) (name : String) (role : Role)
    (use : (name, role) ∈ Code.uses code ++
      (Block.result? (.mk label code)).toList.map (·, .result)) : name ∈ scope ++ Code.defs code := by
  rcases mem_append.mp use with use | last
  · exact mem_append.mpr (fits.mem_of_use use)
  · obtain ⟨result, found, same⟩ := mem_map.mp last
    cases same
    exact mem_append_right _ (Code.mem_defs_of_result? (Option.mem_toList.mp found))

theorem branch_instr_spec (of : Copies.Of copies whole) {rest : Code} (yes_spec : Spec whole copies yes)
    (no_spec : Spec whole copies no) (spec : Spec whole copies rest) :
    Spec whole copies (⟨id, name, span, .branch test (.mk label yes) (.mk label' no)⟩ :: rest) := by
  intro scope state within knows present
  have own := within.inside _ (Code.mem_instrs (.head _))
  have here : copies.find? name = none := of.copy _ own
  obtain ⟨yes_ends, no_ends⟩ := of.plain _ own
  have yes_within := within.arm (.inl rfl)
  have no_within := within.arm (.inr rfl)
  have nodup := within.nodup
  rw [Code.defs_branch, nodup_cons, nodup_append, nodup_append] at nodup
  have defined {code : Code} {instr : Instr Block} (mem : instr ∈ Code.instrs code) :
      instr.name ∈ Code.defs code :=
    mem_flatMap.mpr ⟨instr, mem, .head _⟩
  have yes_uses : Code.uses yes ++ (Block.result? (.mk label yes)).toList.map (·, .result) ⊆
      Code.uses [⟨id, name, span, .branch test (.mk label yes) (.mk label' no)⟩] := by
    intro _ mem
    simp only [Code.uses_branch, Value.uses, mem_append, mem_cons, map_append] at mem ⊢
    tauto
  have no_uses : Code.uses no ++ (Block.result? (.mk label' no)).toList.map (·, .result) ⊆
      Code.uses [⟨id, name, span, .branch test (.mk label yes) (.mk label' no)⟩] := by
    intro _ mem
    simp only [Code.uses_branch, Value.uses, mem_append, mem_cons, map_append] at mem ⊢
    tauto
  have one_role : OneRole (Code.uses
      [⟨id, name, span, .branch test (.mk label yes) (.mk label' no)⟩]) := by
    refine within.one_role.mono (Code.uses_mono ?_)
    rw [Code.instrs_cons, Code.instrs_cons]
    exact cons_subset_cons _ (append_subset.mpr ⟨subset_append_left _ _, nil_subset _⟩)
  have yes_known := block_known label yes_within.fits
  have no_known := block_known label' no_within.fits
  have test_known : ∀ name role, (name, role) ∈ [(test, Role.value)] → name ∈ scope := by
    simpa using within.fits.1
  have yes_apart : ∀ instr ∈ Code.instrs yes, instr.name ∉ scope ++ Code.defs no := by
    intro _ mem known
    rcases mem_append.mp known with around | there
    · exact yes_within.apart _ around (defined mem)
    · exact nodup.2.1.2.2 _ (defined mem) _ there rfl
  have no_apart : ∀ instr ∈ Code.instrs no, instr.name ∉ scope ++ Code.defs yes := by
    intro _ mem known
    rcases mem_append.mp known with around | there
    · exact no_within.apart _ around (defined mem)
    · exact nodup.2.1.2.2 _ there _ (defined mem) rfl
  rw [Forward.code]
  refine .bind (name_spec knows within.fits.1) ?_
  rintro _ first ⟨rfl, consumes⟩
  have tested := consumes.passes knows
  have yes_present : ∀ instr ∈ Code.instrs yes, instr.id ∉ first.removed := fun other mem =>
    tested.spares of test_known (yes_within.inside other mem)
      (fun around => yes_within.apart _ around (defined mem))
      (present other (by simp [Code.instrs, Code.blockInstrs, mem]))
  refine .bind (block_spec of yes_spec yes_within tested.knows yes_present yes_ends
    (one_role.mono yes_uses)) ?_
  rintro _ second ⟨rfl, yes_passes, yes_endings, yes_trimmed⟩
  have no_present : ∀ instr ∈ Code.instrs no, instr.id ∉ second.removed := by
    intro other mem
    apply yes_passes.spares of yes_known (no_within.inside other mem) (no_apart other mem)
    exact tested.spares of test_known (no_within.inside other mem)
      (fun around => no_within.apart _ around (defined mem))
      (present other (by simp [Code.instrs, Code.blockInstrs, mem]))
  refine .bind (block_spec of no_spec no_within yes_passes.knows no_present no_ends
    (one_role.mono no_uses)) ?_
  rintro _ third ⟨rfl, no_passes, no_endings, no_trimmed⟩
  have whole_passes := (tested.trans yes_passes).trans no_passes
  have first_passes : Passes copies (name :: scope)
      (Code.uses [⟨id, name, span, .branch test (.mk label yes) (.mk label' no)⟩]) state third := by
    have plain : ∀ other ∈ [name], copies.find? other = none := by simpa using here
    refine (whole_passes.known (knows_append whole_passes.knows plain)).congr fun _ => ?_
    simp only [Code.uses_branch, Value.uses, mem_append, mem_cons, map_append]
    tauto
  refine rest_spec of within (fun other mem => present other (by simp [Code.instrs, mem])) rfl
    first_passes ?_ spec
  have yes_kept := yes_endings.later no_passes of no_known yes_within.inside fun other deep =>
    yes_apart other ((Code.instrs_perm yes).mem_iff.mpr (mem_append_right _ deep))
  have yes_end := Trimmed.later yes_trimmed no_passes of no_known
    (fun other mem => yes_within.inside other (Code.mem_instrs mem))
    fun other mem => yes_apart other (Code.mem_instrs mem)
  intro instr mem block there
  simp only [Code.instrs, Code.blockInstrs, append_nil, mem_cons, mem_append] at mem
  rcases mem with rfl | mem | mem
  · simp only [Value.blocks, mem_cons, not_mem_nil, or_false] at there
    rcases there with rfl | rfl
    · exact yes_end
    · exact no_trimmed
  · exact yes_kept instr mem block there
  · exact no_endings instr mem block there

theorem function_instr_spec (of : Copies.Of copies whole) {body rest : Code}
    (body_spec : Spec whole copies body) (spec : Spec whole copies rest) :
    Spec whole copies (⟨id, name, span, .function params (.mk label body) recursive⟩ :: rest) := by
  intro scope state within knows present
  have own := within.inside _ (Code.mem_instrs (.head _))
  have here := of.copy _ own
  have ends := of.plain _ own
  have body_within := within.body of
  have body_present : ∀ instr ∈ Code.instrs body, instr.id ∉ state.removed := fun other mem =>
    present other (by simp [Code.instrs, Code.blockInstrs, mem])
  have rest_present : ∀ instr ∈ Code.instrs rest, instr.id ∉ state.removed := fun other mem =>
    present other (by simp [Code.instrs, mem])
  have plain : ∀ other ∈ name :: params, copies.find? other = none := by
    intro other mem
    rcases mem_cons.mp mem with rfl | mem
    · exact here
    · exact of.param _ own other mem
  have one_role : OneRole (Code.uses body ++ (Block.result? (.mk label body)).toList.map (·, .result)) := by
    refine within.one_role.mono fun use mem => ?_
    rw [Code.uses_function]
    rcases mem_append.mp mem with mem | mem
    · exact mem_append_right _ (mem_append_left _ mem)
    · exact mem_append_left _ mem
  rw [Forward.code]
  refine .bind (block_spec of body_spec body_within (knows_append knows plain) body_present ends one_role) ?_
  rintro _ middle ⟨rfl, passes, endings, trimmed⟩
  have first : Passes copies (name :: scope)
      (Code.uses [⟨id, name, span, .function params (.mk label body) recursive⟩]) state middle := by
    refine (passes.known ⟨passes.knows.sound, fun other mem => passes.knows.complete other ?_⟩).congr
      fun use => ?_
    · simp only [cons_append, mem_cons, mem_append] at mem ⊢
      exact mem.imp_right .inr
    · simp only [Code.uses_function, Value.uses, mem_append]
      tauto
  refine rest_spec of within rest_present rfl first ?_ spec
  intro instr mem block there
  simp only [Code.instrs, Code.blockInstrs, append_nil, mem_cons] at mem
  rcases mem with rfl | mem
  · rw [Value.blocks, mem_singleton] at there
    rw [there]
    exact trimmed
  · exact endings instr mem block there

theorem code_spec (of : Copies.Of copies whole) (code : Code) : Spec whole copies code := by
  induction code using Code.induction with
  | nil =>
    intro _ state _ knows _
    exact .pure ⟨rfl, ⟨knows, ⟨[], .none state, nofun⟩, nofun⟩, nofun⟩
  | op ih => exact op_instr_spec of ih
  | branch yes_ih no_ih ih =>
    exact branch_instr_spec of yes_ih no_ih ih
  | function body_ih ih =>
    exact function_instr_spec of body_ih ih

/-! ### No copy is missing -/

theorem dropCopies_finds (known : ∀ name ∈ names, ∃ copy, state.copies.find? name = some copy) :
    Gives (dropCopies names) state fun _ later => later.missing = state.missing := by
  induction names generalizing state with
  | nil => exact .pure rfl
  | cons name _ ih =>
    obtain ⟨copy, here⟩ := known name (.head _)
    have first : Gives (dropCopy name) state fun _ later =>
        later.copies = state.copies ∧ later.missing = state.missing := by
      unfold dropCopy
      split
      · refine .get ?_
        rw [here]
        dsimp only
        split
        · exact .modify ⟨rfl, rfl⟩
        · exact .pure ⟨rfl, rfl⟩
      · exact .pure ⟨rfl, rfl⟩
    refine .bind first fun _ middle ⟨same, kept⟩ => (ih ?_).weaken fun _ _ kept' => kept'.trans kept
    rw [same]
    exact fun name mem => known name (.tail _ mem)

theorem find?_of_chain (mem : name ∈ (Copies.callee copies op).2) :
    ∃ copy, copies.find? name = some copy := by
  cases op with
  | call kind callee _ =>
    by_cases external : kind = .external
    · simp [Copies.callee, external] at mem
    · cases found : Copies.external? copies callee with
      | none => simp [Copies.callee, external, found] at mem
      | some chain =>
        obtain ⟨links, target⟩ := chain
        obtain ⟨_, leads⟩ := Copies.external?_eq_some.mp found
        obtain ⟨fuel, _, leads, _⟩ :=
          Copies.toExternal_of_mem leads (by simpa [Copies.callee, external, found] using mem)
        cases fuel with
        | zero => cases leads
        | succ =>
          obtain ⟨copy, here, _⟩ := Copies.toExternal_succ.mp leads
          exact ⟨copy, here⟩
  | _ => cases mem

theorem find?_of_local (mem : name ∈ names.filter (Copies.isLocal copies)) :
    ∃ copy, copies.find? name = some copy := by
  obtain ⟨copy, here, _⟩ := Copies.isLocal_iff.mp (mem_filter.mp mem).2
  exact ⟨copy, here⟩

theorem op_finds (op : Op) (state : Forwarding) :
    Gives (Forward.op op) state fun _ later => later.missing = state.missing := by
  refine .get (.bind (dropCopies_finds fun name mem => ?_) fun _ _ kept => .pure kept)
  exact (mem_append.mp mem).elim find?_of_chain find?_of_local

theorem name_finds (name : String) (state : Forwarding) :
    Gives (Forward.name name) state fun _ later => later.missing = state.missing :=
  .get (.bind (dropCopies_finds fun _ => find?_of_local) fun _ _ kept => .pure kept)

theorem block_finds (code_finds : ∀ state, Gives (Forward.code code) state fun _ later =>
      later.missing = state.missing) (label : String) (state : Forwarding) :
    Gives (Forward.block (.mk label code)) state fun _ later => later.missing = state.missing := by
  have trailing (body : Code) (state : Forwarding) :
      Gives (dropTrailing body) state fun _ later => later.missing = state.missing := by
    refine .get ?_
    split
    · split
      · split
        · exact .modify rfl
        · exact .pure rfl
      · exact .pure rfl
    · exact .pure rfl
  rw [Forward.block]
  exact .bind (code_finds state) fun body middle kept => .bind (trailing body middle)
    fun _ _ kept' => .pure (kept'.trans kept)

theorem code_finds (code : Code) (state : Forwarding) :
    Gives (Forward.code code) state fun _ later => later.missing = state.missing := by
  induction code using Code.induction generalizing state with
  | nil => exact .pure rfl
  | @op id name span op rest ih =>
    cases op with
    | ref | external =>
      rw [Forward.code]
      exact .bind (.modify rfl) fun _ middle kept => .bind (ih middle) fun _ _ kept' =>
        .pure (kept'.trans kept)
    | _ =>
      rw [code_op (by trivial)]
      exact .bind (op_finds _ state) fun _ middle kept => .bind (ih middle) fun _ _ kept' =>
        .pure (kept'.trans kept)
  | branch yes_ih no_ih ih =>
    rw [Forward.code]
    exact .bind (name_finds _ state) fun _ tested kept => .bind (block_finds yes_ih _ tested)
      fun _ left kept' => .bind (block_finds no_ih _ left) fun _ middle kept'' => .bind (ih middle)
        fun _ _ last => .pure (last.trans (kept''.trans (kept'.trans kept)))
  | function body_ih ih =>
    rw [Forward.code]
    exact .bind (block_finds body_ih _ state) fun _ middle kept => .bind (ih middle)
      fun _ _ kept' => .pure (kept'.trans kept)

end Forward

end MiddleEnd
