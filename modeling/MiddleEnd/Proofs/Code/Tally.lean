import MiddleEnd.Proofs.Code.Basic
import MiddleEnd.Proofs.Code.Names

/-! What stretches of lowered code have in common: which names and numbers they take, what they do to
the table, and how they read temporaries. Two stretches one after another are one stretch. -/

namespace MiddleEnd

open List

variable {start middle stop : Lowering} {instrs instrs' : List (Instr Block)} {value : Value Block}
  {later : Lowering} {symbol : Symbol}

namespace NameMap

variable {α : Type}

theorem contains_insert (map : NameMap α) (name other : String) (value : α) :
    (map.insert name value).contains other = true ↔ other = name ∨ map.contains other = true := by
  simp only [contains, find?_insert]
  split <;> simp_all

theorem contains_erase (map : NameMap α) (name other : String) :
    (map.erase name).contains other = true ↔ other ≠ name ∧ map.contains other = true := by
  simp only [contains, find?_erase]
  split <;> simp_all

end NameMap

namespace Lowering

abbrev emitted (state : Lowering) (type : Ty) : Lowering where
  temporaries := state.temporaries + 1
  instructions := state.instructions + 1
  table := state.table.insert (temporary state.temporaries) type

/-- A temporary that was handed out between two states. -/
def Between (start stop : Lowering) (n : Nat) : Prop :=
  start.temporaries ≤ n ∧ n < stop.temporaries

def Clear (state : Lowering) : Prop :=
  ∀ n, state.temporaries ≤ n → state.table.contains (temporary n) ≠ true

end Lowering

structure Tally (start stop : Lowering) (symbols : List Symbol) (instrs : List (Instr Block)) :
    Prop where
  temporaries_le : start.temporaries ≤ stop.temporaries
  instructions_le : start.instructions ≤ stop.instructions
  ids_nodup : (instrs.map Instr.id).Nodup
  ids_between : ∀ instr ∈ instrs, start.instructions ≤ instr.id ∧ instr.id < stop.instructions
  temporaries_nodup : ((instrs.flatMap Instr.defs).filter isTemporary).Nodup
  temporaries_between : ∀ name ∈ instrs.flatMap Instr.defs, isTemporary name = true →
    ∃ n, start.Between stop n ∧ name = temporary n
  symbols_perm :
    ((instrs.flatMap Instr.defs).filter fun name => !isTemporary name).Perm (symbols.map Symbol.name)
  table : start.Clear → ∀ name, stop.table.contains name = true ↔
    start.table.contains name = true ∨ isTemporary name = true ∧ name ∈ instrs.flatMap Instr.defs

namespace Tally

variable {symbols symbols' : List Symbol}

theorem clear (tally : Tally start stop symbols instrs) (clear : start.Clear) : stop.Clear := by
  intro n later typed
  rcases (tally.table clear _).mp typed with before | ⟨temp, mem⟩
  · exact clear n (Nat.le_trans tally.temporaries_le later) before
  · obtain ⟨_, between, same⟩ := tally.temporaries_between _ mem temp
    have inside := between.2
    rw [← temporary_inj same] at inside
    omega

protected theorem nil (state : Lowering) : Tally state state [] [] where
  temporaries_le := Nat.le_refl _
  instructions_le := Nat.le_refl _
  ids_nodup := nodup_nil
  ids_between := nofun
  temporaries_nodup := nodup_nil
  temporaries_between := nofun
  symbols_perm := .refl _
  table := by simp

theorem append (front : Tally start middle symbols instrs) (back : Tally middle stop symbols' instrs') :
    Tally start stop (symbols ++ symbols') (instrs ++ instrs') where
  temporaries_le := Nat.le_trans front.temporaries_le back.temporaries_le
  instructions_le := Nat.le_trans front.instructions_le back.instructions_le
  ids_nodup := by
    rw [map_append, nodup_append]
    refine ⟨front.ids_nodup, back.ids_nodup, fun id first _ second same => ?_⟩
    obtain ⟨instr, mem, rfl⟩ := mem_map.mp first
    obtain ⟨instr', mem', rfl⟩ := mem_map.mp second
    have := front.ids_between instr mem
    have := back.ids_between instr' mem'
    omega
  ids_between := by
    have := front.instructions_le
    have := back.instructions_le
    intro instr mem
    rcases mem_append.mp mem with mem | mem
    · have := front.ids_between instr mem
      omega
    · have := back.ids_between instr mem
      omega
  temporaries_nodup := by
    rw [flatMap_append, filter_append, nodup_append]
    refine ⟨front.temporaries_nodup, back.temporaries_nodup, ?_⟩
    rintro name first _ second rfl
    obtain ⟨mem, temp⟩ := mem_filter.mp first
    obtain ⟨n, inside, rfl⟩ := front.temporaries_between _ mem temp
    obtain ⟨_, inside', same⟩ :=
      back.temporaries_between _ (mem_filter.mp second).1 temp
    have := temporary_inj same
    have := inside.2
    have := inside'.1
    omega
  temporaries_between := by
    have := front.temporaries_le
    have := back.temporaries_le
    intro name mem temp
    rw [flatMap_append] at mem
    rcases mem_append.mp mem with mem | mem
    · obtain ⟨n, ⟨_, _⟩, same⟩ := front.temporaries_between name mem temp
      exact ⟨n, ⟨by omega, by omega⟩, same⟩
    · obtain ⟨n, ⟨_, _⟩, same⟩ := back.temporaries_between name mem temp
      exact ⟨n, ⟨by omega, by omega⟩, same⟩
  symbols_perm := by
    rw [flatMap_append, filter_append, map_append]
    exact front.symbols_perm.append back.symbols_perm
  table := by
    intro clear _
    rw [back.table (front.clear clear), front.table clear, flatMap_append, mem_append]
    tauto

theorem perm (tally : Tally start stop symbols instrs) (same_symbols : symbols.Perm symbols')
    (same : instrs.Perm instrs') : Tally start stop symbols' instrs' where
  temporaries_le := tally.temporaries_le
  instructions_le := tally.instructions_le
  ids_nodup := (same.map _).nodup_iff.mp tally.ids_nodup
  ids_between instr mem := tally.ids_between instr (same.mem_iff.mpr mem)
  temporaries_nodup := ((same.flatMap_right _).filter _).nodup_iff.mp tally.temporaries_nodup
  temporaries_between name mem :=
    tally.temporaries_between name ((same.flatMap_right _).mem_iff.mpr mem)
  symbols_perm :=
    ((same.flatMap_right _).filter _).symm.trans (tally.symbols_perm.trans (same_symbols.map _))
  table clear name := by
    rw [tally.table clear, (same.flatMap_right Instr.defs).mem_iff]

theorem emit (state : Lowering) (span : Span) (type : Ty) (plain : value.params = []) :
    Tally state
      (state.emitted type)
      [] [⟨state.instructions, temporary state.temporaries, span, value⟩] where
  temporaries_le := Nat.le_succ _
  instructions_le := Nat.le_succ _
  ids_nodup := by simp
  ids_between := by simp
  temporaries_nodup := by simp [Instr.defs, plain, isTemporary_temporary]
  temporaries_between := by
    simp only [flatMap_cons, flatMap_nil, Instr.defs, plain, append_nil,
      mem_singleton]
    rintro name rfl _
    exact ⟨state.temporaries, ⟨Nat.le_refl _, Nat.lt_succ_self _⟩, rfl⟩
  symbols_perm := by simp [Instr.defs, plain, isTemporary_temporary]
  table _ name := by
    rw [NameMap.contains_insert, or_comm]
    refine or_congr Iff.rfl ?_
    simp only [flatMap_cons, flatMap_nil, Instr.defs, plain, append_nil,
      mem_singleton]
    exact ⟨fun same => ⟨same ▸ isTemporary_temporary _, same⟩, And.right⟩

theorem named {state : Lowering} (span : Span) {params : List Symbol}
    (same_params : value.params = params.map Symbol.name)
    (fine : ∀ bound ∈ symbol :: params, isTemporary bound.name = false)
    (same_temporaries : later.temporaries = state.temporaries)
    (counted : later.instructions = state.instructions + 1)
    (same_table : ∀ name, later.table.contains name = true ↔ state.table.contains name = true) :
    Tally state later (symbol :: params) [⟨state.instructions, symbol.name, span, value⟩] := by
  have clean : ∀ name ∈ symbol.name :: value.params, isTemporary name = false := by
    rw [same_params, ← map_cons]
    intro _ mem
    obtain ⟨bound, there, rfl⟩ := mem_map.mp mem
    exact fine bound there
  have defs : [(⟨state.instructions, symbol.name, span, value⟩ : Instr Block)].flatMap Instr.defs =
      symbol.name :: value.params := by
    simp [Instr.defs]
  constructor
  · omega
  · omega
  · simp
  · simp [counted]
  · rw [defs, filter_eq_nil_iff.mpr fun name mem => by simp [clean name mem]]
    exact nodup_nil
  · rw [defs]
    intro name mem temp
    rw [clean name mem] at temp
    cases temp
  · rw [defs, filter_eq_self.mpr fun name mem => by simp [clean name mem], same_params]
    exact .refl _
  · intro _ name
    rw [defs, same_table]
    refine ⟨.inl, fun typed => typed.resolve_right fun made => ?_⟩
    obtain ⟨temp, mem⟩ := made
    rw [clean name mem] at temp
    cases temp

theorem rename {last : Instr Block} {result : Nat} (tally : Tally start stop symbols (last :: instrs))
    (named : last.name = temporary result) (plain : last.value.params = [])
    (fine : isTemporary symbol.name = false) (typed : start.table.contains symbol.name = true)
    (type : Ty) :
    Tally start { stop with table := (stop.table.erase last.name).insert symbol.name type }
      (symbol :: symbols) ({ last with name := symbol.name } :: instrs) := by
  have temp := isTemporary_temporary result
  have defs : (last :: instrs).flatMap Instr.defs = temporary result :: instrs.flatMap Instr.defs := by
    simp [Instr.defs, plain, named]
  have defs' : ({ last with name := symbol.name } :: instrs).flatMap Instr.defs =
      symbol.name :: instrs.flatMap Instr.defs := by
    simp [Instr.defs, plain]
  have nodup := tally.temporaries_nodup
  rw [defs, filter_cons, if_pos temp, nodup_cons] at nodup
  have between := tally.temporaries_between
  rw [defs] at between
  constructor
  · exact tally.temporaries_le
  · exact tally.instructions_le
  · exact tally.ids_nodup
  · intro instr mem
    rcases mem_cons.mp mem with rfl | mem
    · exact tally.ids_between last (.head _)
    · exact tally.ids_between instr (.tail _ mem)
  · rw [defs', filter_cons, if_neg (by simp [fine])]
    exact nodup.2
  · rw [defs']
    intro name mem temp
    rcases mem_cons.mp mem with rfl | mem
    · rw [fine] at temp
      cases temp
    · exact between name (.tail _ mem) temp
  · rw [defs', filter_cons, if_pos (by simp [fine]), map_cons]
    refine .cons _ ?_
    simpa [defs, temp] using tally.symbols_perm
  · intro clear name
    rw [NameMap.contains_insert, NameMap.contains_erase, named, tally.table clear, defs, defs']
    obtain ⟨n, inside, same⟩ := between _ (.head _) temp
    have absent := clear n inside.1
    rw [← same] at absent
    have fresh : temporary result ∉ instrs.flatMap Instr.defs := fun mem =>
      nodup.1 (mem_filter.mpr ⟨mem, temp⟩)
    simp only [mem_cons]
    constructor
    · rintro (rfl | ⟨other, before | ⟨here, rfl | mem⟩⟩)
      · exact .inl typed
      · exact .inl before
      · exact absurd rfl other
      · exact .inr ⟨here, .inr mem⟩
    · rintro (before | ⟨here, rfl | mem⟩)
      · exact .inr ⟨fun same => absent (same ▸ before), .inl before⟩
      · exact .inl rfl
      · exact .inr ⟨fun same => fresh (same ▸ mem), .inr ⟨here, .inr mem⟩⟩

end Tally

def Consistent (uses : List (String × Role)) : Prop :=
  ∀ n role role', (temporary n, role) ∈ uses → (temporary n, role') ∈ uses →
    role = role'

def usesOf (instrs : List (Instr Block)) : List (String × Role) :=
  instrs.flatMap fun instr => instr.value.uses

theorem usesOf_append (instrs instrs' : List (Instr Block)) :
    usesOf (instrs ++ instrs') = usesOf instrs ++ usesOf instrs' := by
  simp [usesOf]

structure Reading (start stop : Lowering) (instrs : List (Instr Block)) (unread : List Nat) :
    Prop where
  temporaries_le : start.temporaries ≤ stop.temporaries
  consistent : Consistent (usesOf instrs)
  between : ∀ n role, (temporary n, role) ∈ usesOf instrs → start.Between stop n
  unread_nodup : unread.Nodup
  unread_between : ∀ n ∈ unread, start.Between stop n
  unread : ∀ n ∈ unread, ∀ role, (temporary n, role) ∉ usesOf instrs

namespace Reading

variable {unread unread' : List Nat}

protected theorem nil (state : Lowering) : Reading state state [] [] where
  temporaries_le := Nat.le_refl _
  consistent := nofun
  between := nofun
  unread_nodup := nodup_nil
  unread_between := nofun
  unread := nofun

theorem append (front : Reading start middle instrs unread) (back : Reading middle stop instrs' unread') :
    Reading start stop (instrs ++ instrs') (unread ++ unread') := by
  have front_le := front.temporaries_le
  have back_le := back.temporaries_le
  have apart {n : Nat} (inside : start.Between middle n)
      (inside' : middle.Between stop n) : False := by
    have := inside.2
    have := inside'.1
    omega
  have left {n : Nat} (inside : start.Between middle n) : start.Between stop n :=
    ⟨inside.1, Nat.lt_of_lt_of_le inside.2 back_le⟩
  have right {n : Nat} (inside : middle.Between stop n) : start.Between stop n :=
    ⟨Nat.le_trans front_le inside.1, inside.2⟩
  constructor
  · omega
  · intro n role role' first second
    rw [usesOf_append, mem_append] at first second
    rcases first with first | first <;> rcases second with second | second
    · exact front.consistent n role role' first second
    · exact (apart (front.between _ _ first) (back.between _ _ second)).elim
    · exact (apart (front.between _ _ second) (back.between _ _ first)).elim
    · exact back.consistent n role role' first second
  · intro n role use
    rw [usesOf_append, mem_append] at use
    exact use.elim (fun use => left (front.between _ _ use)) fun use => right (back.between _ _ use)
  · rw [nodup_append]
    refine ⟨front.unread_nodup, back.unread_nodup, ?_⟩
    rintro n first _ second rfl
    exact apart (front.unread_between _ first) (back.unread_between _ second)
  · intro n mem
    exact (mem_append.mp mem).elim (fun mem => left (front.unread_between _ mem))
      fun mem => right (back.unread_between _ mem)
  · intro n mem role use
    rw [usesOf_append, mem_append] at use
    rcases mem_append.mp mem with mem | mem <;> rcases use with use | use
    · exact front.unread n mem role use
    · exact apart (front.unread_between _ mem) (back.between _ _ use)
    · exact apart (front.between _ _ use) (back.unread_between _ mem)
    · exact back.unread n mem role use

theorem perm (reading : Reading start stop instrs unread) (same : instrs.Perm instrs') :
    Reading start stop instrs' unread := by
  have uses : ∀ use, use ∈ usesOf instrs' ↔ use ∈ usesOf instrs := fun use =>
    (same.symm.flatMap_right _).mem_iff
  exact {
    temporaries_le := reading.temporaries_le
    consistent := fun n role role' first second =>
      reading.consistent n role role' ((uses _).mp first) ((uses _).mp second)
    between := fun n role use => reading.between n role ((uses _).mp use)
    unread_nodup := reading.unread_nodup
    unread_between := reading.unread_between
    unread := fun n mem role use => reading.unread n mem role ((uses _).mp use) }

theorem read {instr : Instr Block} {kept : List Nat} (reading : Reading start stop instrs unread)
    (stop_le : stop.temporaries ≤ later.temporaries) (consistent : Consistent instr.value.uses)
    (reads : ∀ n role, (temporary n, role) ∈ instr.value.uses →
      n ∈ unread ∨ (temporary n, role) ∈ usesOf instrs) (kept_nodup : kept.Nodup)
    (kept_unread : ∀ n ∈ kept, (n ∈ unread ∨ stop.Between later n) ∧
      ∀ role, (temporary n, role) ∉ instr.value.uses) :
    Reading start later (instrs ++ [instr]) kept := by
  have start_le := reading.temporaries_le
  have uses : usesOf (instrs ++ [instr]) = usesOf instrs ++ instr.value.uses := by simp [usesOf]
  have known {n : Nat} (mem : n ∈ unread) : start.Between later n :=
    have inside := reading.unread_between n mem
    ⟨inside.1, Nat.lt_of_lt_of_le inside.2 stop_le⟩
  have used {n : Nat} {role : Role} (use : (temporary n, role) ∈ usesOf instrs) :
      start.Between later n :=
    have inside := reading.between n role use
    ⟨inside.1, Nat.lt_of_lt_of_le inside.2 stop_le⟩
  have agree {n : Nat} {role role' : Role} (first : (temporary n, role) ∈ usesOf instrs)
      (second : (temporary n, role') ∈ instr.value.uses) : role = role' := by
    rcases reads n role' second with mem | mem
    · exact absurd first (reading.unread n mem role)
    · exact reading.consistent n role role' first mem
  constructor
  · omega
  · intro n role role' first second
    rw [uses, mem_append] at first second
    rcases first with first | first <;> rcases second with second | second
    · exact reading.consistent n role role' first second
    · exact agree first second
    · exact (agree second first).symm
    · exact consistent n role role' first second
  · intro n role use
    rw [uses, mem_append] at use
    rcases use with use | use
    · exact used use
    · exact (reads n role use).elim known used
  · exact kept_nodup
  · intro n mem
    rcases (kept_unread n mem).1 with mem | inside
    · exact known mem
    · exact ⟨Nat.le_trans start_le inside.1, inside.2⟩
  · intro n mem role use
    rw [uses, mem_append] at use
    obtain ⟨origin, other⟩ := kept_unread n mem
    rcases use with use | use
    · rcases origin with mem | inside
      · exact reading.unread n mem role use
      · have := (reading.between n role use).2
        have := inside.1
        omega
    · exact other role use

end Reading

end MiddleEnd
