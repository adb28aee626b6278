import MiddleEnd.Proofs.Typing.Primitives

/-! The variables that inference notes: those for the elements of empty literals, and those that they are
instantiated to. What it has noted can be read off what it has made. -/

namespace MiddleEnd

open List

variable {use : Use} {expr : TypedExpr}

def Use.Copies (use : Use) (generic n : Nat) : Prop :=
  ∃ made ∈ use.instantiation, (generic, .var n) ∈ made.mapping ∧
    ∀ entry ∈ made.mapping, ∀ other ∈ entry.2.vars, generic < other

theorem Use.Copies.lt {generic n : Nat} (copies : use.Copies generic n) : generic < n := by
  obtain ⟨_, -, mem, older⟩ := copies
  exact older _ mem n (mem_singleton_self n)

namespace Expr

def element? : TypedExpr → Option Nat
  | none here | arrayLit here [] =>
    match here.type with
    | .app _ (.var n) => n
    | _ => .none
  | _ => .none

inductive HasEmpty : TypedExpr → Nat → Prop
  | here {expr : TypedExpr} {n : Nat} (same : expr.element? = n) : HasEmpty expr n
  | part {expr : TypedExpr} {part : List Bound × TypedExpr} {n : Nat} (member : part ∈ expr.parts)
      (inside : HasEmpty part.2 n) : HasEmpty expr n

end Expr

structure Notes (state : Inference) (exprs : List TypedExpr) (later : Inference) : Prop where
  size_le : state.store.size ≤ later.store.size
  kept {n : Nat} (noted : n ∈ state.empties) : n ∈ later.empties
  added {n : Nat} (noted : n ∈ later.empties) : n ∈ state.empties ∨
    (state.store.size ≤ n ∧ n < later.store.size) ∧ ∃ expr ∈ exprs, expr.HasEmpty n ∨
      ∃ use ∈ expr.refs, ∃ generic ∈ later.empties, use.Copies generic n
  literal {expr : TypedExpr} {n : Nat} (member : expr ∈ exprs) (empty : expr.HasEmpty n) :
    n ∈ later.empties
  copy {expr : TypedExpr} {use : Use} {generic n : Nat} (member : expr ∈ exprs) (used : use ∈ expr.refs)
    (copies : use.Copies generic n) :
    n < later.store.size ∧ (generic ∈ later.empties → n ∈ later.empties)

def Inference.Dated (state : Inference) : Prop := ∀ n ∈ state.empties, n < state.store.size

namespace Notes

variable {state middle later : Inference} {exprs exprs' : List TypedExpr}

theorem dated (notes : Notes state exprs later) (dated : state.Dated) : later.Dated := by
  intro n noted
  rcases notes.added noted with before | ⟨⟨-, made⟩, -⟩
  · exact Nat.lt_of_lt_of_le (dated n before) notes.size_le
  · exact made

theorem of_same (size_le : state.store.size ≤ later.store.size) (same : later.empties = state.empties) :
    Notes state [] later where
  size_le := size_le
  kept noted := same ▸ noted
  added noted := .inl (same ▸ noted)
  literal mem := nomatch mem
  copy mem := nomatch mem

theorem refl (state : Inference) : Notes state [] state := .of_same (Nat.le_refl _) rfl

theorem trans (first : Notes state exprs middle) (second : Notes middle exprs' later) :
    Notes state (exprs ++ exprs') later where
  size_le := Nat.le_trans first.size_le second.size_le
  kept noted := second.kept (first.kept noted)
  added {n} noted := by
    rcases second.added noted with noted | ⟨⟨old, made⟩, expr, mem, cause⟩
    · rcases first.added noted with noted | ⟨⟨old, made⟩, expr, mem, cause⟩
      · exact .inl noted
      · refine .inr ⟨⟨old, Nat.lt_of_lt_of_le made second.size_le⟩, expr, mem_append_left _ mem, ?_⟩
        exact cause.imp_right fun ⟨use, used, generic, noted, copies⟩ =>
          ⟨use, used, generic, second.kept noted, copies⟩
    · exact .inr ⟨⟨Nat.le_trans first.size_le old, made⟩, expr, mem_append_right _ mem, cause⟩
  literal mem empty := by
    rcases mem_append.mp mem with mem | mem
    · exact second.kept (first.literal mem empty)
    · exact second.literal mem empty
  copy {expr use generic n} mem used copies := by
    rcases mem_append.mp mem with mem | mem
    · obtain ⟨made, follows⟩ := first.copy mem used copies
      refine ⟨Nat.lt_of_lt_of_le made second.size_le, fun noted => ?_⟩
      -- what is noted later was made later than the copy, so it is not what was copied
      rcases second.added noted with noted | ⟨⟨old, -⟩, -⟩
      · exact second.kept (follows noted)
      · have younger := copies.lt
        omega
    · exact second.copy mem used copies

theorem after (first : Notes state exprs middle) (second : Notes middle [] later) : Notes state exprs later :=
  append_nil exprs ▸ first.trans second

theorem node (notes : Notes state exprs later)
    (parts : ∀ inner, inner ∈ expr.parts.map Prod.snd ↔ inner ∈ exprs) (no_ref : expr.ref? = none)
    (no_literal : expr.element? = none) : Notes state [expr] later := by
  have empty (n : Nat) : expr.HasEmpty n ↔ ∃ inner ∈ exprs, inner.HasEmpty n := by
    refine ⟨fun has => ?_, fun ⟨inner, mem, has⟩ => ?_⟩
    · cases has with
      | here same => cases no_literal.symm.trans same
      | part mem inside => exact ⟨_, (parts _).mp (mem_map_of_mem mem), inside⟩
    · obtain ⟨part, there, rfl⟩ := mem_map.mp ((parts inner).mpr mem)
      exact .part there has
  have used (use : Use) : use ∈ expr.refs ↔ ∃ inner ∈ exprs, use ∈ inner.refs := by
    rw [expr.refs_eq, no_ref, Option.toList_none, nil_append, mem_flatMap]
    refine ⟨fun ⟨part, there, mem⟩ => ⟨part.2, (parts _).mp (mem_map_of_mem there), mem⟩, ?_⟩
    rintro ⟨inner, there, mem⟩
    obtain ⟨part, inside, rfl⟩ := mem_map.mp ((parts inner).mpr there)
    exact ⟨part, inside, mem⟩
  refine ⟨notes.size_le, notes.kept, fun {n} noted => ?_, fun mem has => ?_, fun mem use copies => ?_⟩
  · refine (notes.added noted).imp_right fun ⟨made, inner, mem, cause⟩ =>
      ⟨made, expr, mem_singleton_self expr, ?_⟩
    rcases cause with has | ⟨use, there, copied⟩
    · exact .inl ((empty n).mpr ⟨inner, mem, has⟩)
    · exact .inr ⟨use, (used use).mpr ⟨inner, mem, there⟩, copied⟩
  · obtain rfl := mem_singleton.mp mem
    obtain ⟨inner, mem, has⟩ := (empty _).mp has
    exact notes.literal mem has
  · obtain rfl := mem_singleton.mp mem
    obtain ⟨inner, mem, there⟩ := (used _).mp use
    exact notes.copy mem there copies

theorem empty (parts : expr.parts = []) (no_ref : expr.ref? = none)
    (element : expr.element? = some state.store.size) (level : Nat) :
    Notes state [expr] { state with
      store := (state.store.fresh level).1, empties := state.store.size :: state.empties } := by
  have size : (state.store.fresh level).1.size = state.store.size + 1 := state.store.size_fresh level
  have no_refs : expr.refs = [] := by
    rw [Expr.refs_eq, parts, no_ref]
    rfl
  refine ⟨?_, fun noted => .tail _ noted, fun noted => ?_, fun mem has => ?_, fun mem used => ?_⟩
  · exact Nat.le_trans (Nat.le_succ _) (Nat.le_of_eq size.symm)
  · rcases mem_cons.mp noted with rfl | noted
    · exact .inr ⟨⟨Nat.le_refl _, Nat.lt_of_lt_of_eq (Nat.lt_succ_self _) size.symm⟩, _,
        mem_singleton_self _, .inl (.here element)⟩
    · exact .inl noted
  · obtain rfl := mem_singleton.mp mem
    cases has with
    | here same =>
      obtain rfl := Option.some.inj (element.symm.trans same)
      exact .head _
    | part mem =>
      rw [parts] at mem
      cases mem
  · obtain rfl := mem_singleton.mp mem
    rw [no_refs] at used
    cases used

theorem whole (notes : Notes state [] later) {note : Note} (taken : use.instantiation = none) :
    Notes state [.var note use] later := by
  refine ⟨notes.size_le, notes.kept, fun noted => ?_, fun mem has => ?_, fun mem used copies => ?_⟩
  · exact (notes.added noted).imp_right fun ⟨_, _, mem, _⟩ => nomatch mem
  · obtain rfl := mem_singleton.mp mem
    cases has with
    | here same => cases same
    | part mem => cases mem
  · obtain rfl := mem_singleton.mp mem
    obtain rfl := mem_singleton.mp used
    obtain ⟨_, same, -⟩ := copies
    cases taken.symm.trans same

end Notes

theorem Infer.instantiate_notes (state : Inference) (level : Nat) (name : String) (scheme : Ty) (target : Target)
    (order : Nat) :
    Infers (instantiate level name scheme) state fun made later => state.Dated → ∀ note,
      Notes state [.var note ⟨target, order, some made⟩] later := by
  have spec := (state.store.instance_instantiate level scheme).made
  generalize outcome : state.store.instantiate level scheme = made at spec
  obtain ⟨store, _, mapping⟩ := made
  have fresh {entry : Nat × Ty} (mem : entry ∈ mapping) :
      ∃ made, entry.2 = .var made ∧ state.store.size ≤ made ∧ made < store.size := by
    obtain ⟨made, same, old, mono⟩ := spec.fresh mem
    exact ⟨made, same, old, mono.covers made (mem_singleton_self made)⟩
  have copied {n : Nat} : n ∈ (mapping.filter fun entry => state.empties.contains entry.1).flatMap
      (fun entry => entry.2.vars) ↔ ∃ generic ∈ state.empties, (generic, .var n) ∈ mapping := by
    simp only [mem_flatMap, mem_filter, contains_iff_mem]
    constructor
    · rintro ⟨⟨generic, copy⟩, ⟨mem, noted⟩, there⟩
      obtain ⟨made, rfl, -⟩ := fresh mem
      exact ⟨generic, noted, mem_singleton.mp there ▸ mem⟩
    · rintro ⟨generic, noted, mem⟩
      exact ⟨(generic, .var n), ⟨mem, noted⟩, mem_singleton_self n⟩
  have sorted (entry : Nat × Ty) :
      entry ∈ sortBy (fun first second => first.1 ≤ second.1) mapping ↔ entry ∈ mapping :=
    (sortBy_perm _ mapping).mem_iff
  refine .get ?_
  rw [outcome]
  refine .set (.pure fun dated note => ⟨spec.grows.keeps.size_le, fun noted => mem_append_right _ noted,
    fun noted => ?_, fun mem has => ?_, fun mem used copies => ?_⟩)
  · rcases mem_append.mp noted with noted | noted
    · obtain ⟨generic, before, mem⟩ := copied.mp noted
      obtain ⟨made, same, old, small⟩ := fresh mem
      cases same
      refine .inr ⟨⟨old, small⟩, _, mem_singleton_self _, .inr ⟨_, mem_singleton_self _, generic,
        mem_append_right _ before, _, rfl, (sorted _).mpr mem, fun entry there _ inside => ?_⟩⟩
      obtain ⟨made, same, old, -⟩ := fresh ((sorted entry).mp there)
      rw [same] at inside
      exact mem_singleton.mp inside ▸ Nat.lt_of_lt_of_le (dated generic before) old
    · exact .inl noted
  · obtain rfl := mem_singleton.mp mem
    cases has with
    | here same => cases same
    | part mem => cases mem
  · obtain rfl := mem_singleton.mp mem
    obtain rfl := mem_singleton.mp used
    obtain ⟨_, same, mem, older⟩ := copies
    cases same
    have mem := (sorted _).mp mem
    obtain ⟨made, same, -, small⟩ := fresh mem
    cases same
    refine ⟨small, fun noted => mem_append_left _ (copied.mpr ⟨_, ?_, mem⟩)⟩
    refine (mem_append.mp noted).resolve_left fun noted => ?_
    obtain ⟨_, -, there⟩ := copied.mp noted
    exact Nat.lt_irrefl _ (older _ ((sorted _).mpr there) _ (mem_singleton_self _))

end MiddleEnd
