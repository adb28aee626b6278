import MiddleEnd.Proofs.Code.Verify

/-! What is free in code under exact captures: names that are in scope, none of which is the label of a
known function. -/

namespace MiddleEnd

open List

variable {whole : Code} {scope : List String} {id : Nat} {name : String} {span : Span}
  {instr : Instr Block} {label : String} {params : List String} {body code : Code} {recursive : Bool}

namespace Code

structure Placed (whole : Code) (scope : List String) (code : Code) : Prop where
  inside : instrs code ⊆ instrs whole
  fits : InScope scope code
  nodup : (defs code).Nodup
  apart : ∀ name ∈ scope, name ∉ defs code

structure Stands (whole : Code) (scope : List String) (definition : Definition) : Prop where
  member : definition ∈ definitions whole
  placed : Placed whole (definition.name :: definition.params ++ scope) definition.body.body
  fresh : ∀ bound ∈ definition.name :: definition.params, bound ∉ scope

namespace Placed

theorem rest {rest : Code} (placed : Placed whole scope (instr :: rest)) :
    Placed whole (instr.name :: scope) rest := by
  have nodup := placed.nodup
  have apart := placed.apart
  rw [defs_cons, nodup_append] at nodup
  have later (name : String) (mem : name ∈ defs rest) : name ∈ defs (instr :: rest) := by
    rw [defs_cons]
    exact mem_append_right _ (mem_append_right _ mem)
  constructor
  · refine fun other mem => placed.inside ?_
    rw [instrs_cons]
    exact .tail _ (mem_append_right _ mem)
  · have fits := placed.fits
    obtain ⟨_, _, _, value⟩ := instr
    cases value with
    | op => exact fits.2
    | branch => exact fits.2.2.2
    | function => exact fits.2
  · exact (nodup_append.mp nodup.2.1).2.1
  · intro other mem defined
    rcases mem_cons.mp mem with rfl | around
    · exact nodup.2.2 _ (.head _) _ (mem_append_right _ defined) rfl
    · exact apart other around (later other defined)

theorem arm {test label' : String} {yes no rest arm : Code} (here : arm = yes ∨ arm = no)
    (placed : Placed whole scope
      (⟨id, name, span, .branch test (.mk label yes) (.mk label' no)⟩ :: rest)) :
    Placed whole scope arm := by
  have nodup := placed.nodup
  have apart := placed.apart
  simp only [defs_branch, nodup_cons, nodup_append] at nodup
  have inside := placed.inside
  simp only [instrs, blockInstrs, cons_subset, append_subset] at inside
  rcases here with rfl | rfl
  · exact ⟨inside.2.1.1, placed.fits.2.1, nodup.2.1.1, fun other around defined =>
      apart other around (by simp [defined])⟩
  · exact ⟨inside.2.1.2, placed.fits.2.2.1, nodup.2.1.2.1, fun other around defined =>
      apart other around (by simp [defined])⟩

theorem stands {rest : Code} (placed : Placed whole scope
      (⟨id, name, span, .function params (.mk label body) recursive⟩ :: rest)) :
    Stands whole scope ⟨name, params, .mk label body⟩ := by
  have nodup := placed.nodup
  have apart := placed.apart
  rw [defs_function, nodup_append, nodup_append] at nodup
  have inside := placed.inside
  simp only [instrs, blockInstrs, cons_subset, append_subset] at inside
  have own : ⟨id, name, span, .function params (.mk label body) recursive⟩ ∈ instrs whole := inside.1
  refine ⟨mem_definitions.mpr ⟨_, own, rfl, recursive, rfl⟩,
    ⟨inside.2.1, placed.fits.1, nodup.2.1.1, fun other mem defined => ?_⟩, fun bound own around => ?_⟩
  · rcases mem_append.mp mem with own | around
    · exact nodup.2.2 _ own _ (mem_append_left _ defined) rfl
    · refine apart other around ?_
      rw [defs_function]
      exact mem_append_right _ (mem_append_left _ defined)
  · refine apart bound around ?_
    rw [defs_function]
    exact mem_append_left _ own

end Placed

theorem mem_values (mem : instr ∈ instrs code) (read : (name, .value) ∈ instr.value.uses) :
    name ∈ values code := by
  induction code using Code.induction with
  | nil => cases mem
  | op ih =>
    rw [values, mem_append]
    rcases mem_cons.mp mem with rfl | mem
    · exact .inl (by simpa [Value.uses] using read)
    · exact .inr (ih mem)
  | branch yes_ih no_ih ih =>
    simp only [instrs, blockInstrs, mem_cons, mem_append] at mem
    simp only [values, blockValues, mem_cons, mem_append]
    rcases mem with rfl | (mem | mem) | mem
    · exact .inl (by simpa [Value.uses] using read)
    · exact .inr (.inl (.inl (yes_ih mem)))
    · exact .inr (.inl (.inr (no_ih mem)))
    · exact .inr (.inr (ih mem))
  | function body_ih ih =>
    simp only [instrs, blockInstrs, mem_cons, mem_append] at mem
    simp only [values, blockValues, mem_append]
    rcases mem with rfl | mem | mem
    · simp [Value.uses] at read
    · exact .inl (body_ih mem)
    · exact .inr (ih mem)

end Code

abbrev Captures.free (captures : Captures) (code : Code) : List String :=
  Code.free captures.known captures.closures code

namespace Captures.Exact

variable {captures : Captures}

section

variable (exact : captures.Exact whole)
include exact

theorem mem_held {definition : Definition} (mem : definition ∈ Code.definitions whole)
    {held : List String} (found : captures.closures.find? definition.name = some held) :
    name ∈ held ↔ name ∈ captures.free definition.body.body ∧ name ∉ definition.params ∧
      name ≠ definition.name := by
  have unknown := (exact.keys (by rw [NameMap.contains, found]; rfl)).2
  rw [exact.closure mem unknown] at found
  cases found
  exact Definition.mem_captures

theorem mem_free_function {own : String} {rest : Code}
    (inside : ⟨id, own, span, .function params (.mk label body) recursive⟩ ∈ Code.instrs whole)
    (free : name ∈ captures.free (⟨id, own, span, .function params (.mk label body) recursive⟩ :: rest)) :
    name ≠ own ∧ (name ∈ captures.free body ∧ name ∉ params ∨ name ∈ captures.free rest) := by
  obtain ⟨mem, other⟩ := mem_filter.mp free
  rw [bne_iff_ne] at other
  refine ⟨other, (mem_append.mp mem).imp_left fun held => ?_⟩
  split at held
  · cases held
  · cases found : captures.closures.find? own with
    | none => simp [found] at held
    | some _ =>
      rw [found, Option.getD_some] at held
      have defined : ⟨own, params, .mk label body⟩ ∈ Code.definitions whole :=
        Code.mem_definitions.mpr ⟨_, inside, rfl, recursive, rfl⟩
      obtain ⟨free, no_param, _⟩ := (exact.mem_held defined found).mp held
      exact ⟨free, no_param⟩

theorem not_known_of_reads {op : Op} (inside : instr ∈ Code.instrs whole) (shape : instr.value = .op op)
    (read : name ∈ op.reads captures.known) : name ∉ captures.known := by
  have value (used : name ∈ op.values) : name ∉ captures.known := fun known =>
    exact.escaping name known (Code.mem_values inside (by simp [shape, Value.uses, used]))
  cases op with
  | call _ _ _ =>
    simp only [Op.reads] at read
    split at read
    · exact value read
    · next unknown =>
      rcases mem_cons.mp read with rfl | read
      · simp only [Bool.or_eq_true, not_or] at unknown
        simpa using unknown.2
      · exact value read
  | _ => exact value read

theorem not_known_of_free (inside : Code.instrs code ⊆ Code.instrs whole)
    (free : name ∈ captures.free code) : name ∉ captures.known := by
  induction code using Code.induction with
  | nil => cases free
  | op ih =>
    obtain ⟨mem, _⟩ := mem_filter.mp free
    rcases mem_append.mp mem with read | later
    · exact exact.not_known_of_reads (inside (.head _)) rfl read
    · exact ih (fun _ there => inside (.tail _ there)) later
  | branch yes_ih no_ih ih =>
    simp only [Code.instrs, Code.blockInstrs, cons_subset, append_subset] at inside
    obtain ⟨mem, _⟩ := mem_filter.mp free
    simp only [Code.blockFree, mem_cons, mem_append] at mem
    rcases mem with rfl | (mem | mem) | mem
    · exact fun known => exact.escaping name known (Code.mem_values inside.1 (by simp [Value.uses]))
    · exact yes_ih inside.2.1.1 mem
    · exact no_ih inside.2.1.2 mem
    · exact ih inside.2.2 mem
  | function body_ih ih =>
    simp only [Code.instrs, Code.blockInstrs, cons_subset, append_subset] at inside
    obtain ⟨_, ⟨deep, _⟩ | later⟩ := exact.mem_free_function inside.1 free
    · exact body_ih inside.2.1 deep
    · exact ih inside.2.2 later

theorem mem_of_free (inside : Code.instrs code ⊆ Code.instrs whole) (fits : Code.InScope scope code)
    (free : name ∈ captures.free code) : name ∈ scope := by
  induction code using Code.induction generalizing scope with
  | nil => cases free
  | op ih =>
    obtain ⟨mem, other⟩ := mem_filter.mp free
    rw [bne_iff_ne] at other
    rcases mem_append.mp mem with read | later
    · exact fits.1 name (Op.mem_operands_of_reads read)
    · have visible := ih (fun _ there => inside (.tail _ there)) fits.2 later
      exact (mem_cons.mp visible).resolve_left other
  | branch yes_ih no_ih ih =>
    simp only [Code.instrs, Code.blockInstrs, cons_subset, append_subset] at inside
    obtain ⟨test_fits, yes_fits, no_fits, rest_fits⟩ := fits
    obtain ⟨mem, other⟩ := mem_filter.mp free
    rw [bne_iff_ne] at other
    simp only [Code.blockFree, mem_cons, mem_append] at mem
    rcases mem with rfl | (mem | mem) | mem
    · exact test_fits
    · exact yes_ih inside.2.1.1 yes_fits mem
    · exact no_ih inside.2.1.2 no_fits mem
    · exact (mem_cons.mp (ih inside.2.2 rest_fits mem)).resolve_left other
  | function body_ih ih =>
    simp only [Code.instrs, Code.blockInstrs, cons_subset, append_subset] at inside
    obtain ⟨other, ⟨deep, no_param⟩ | later⟩ := exact.mem_free_function inside.1 free
    · simpa [other, no_param] using body_ih inside.2.1 fits.1 deep
    · exact (mem_cons.mp (ih inside.2.2 fits.2 later)).resolve_left other

end

end Captures.Exact

end MiddleEnd
