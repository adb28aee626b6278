import MiddleEnd.Proofs.Code.Names
import MiddleEnd.Proofs.Ty.General

/-! What a failed unification reports. The steps of the report lead from the two types, as the links that
the attempt leaves make them, to two parts that cannot be equal, and the problem shows these parts. -/

namespace MiddleEnd

open List

variable {type : Ty} {n : Nat} {left right : Ty} {step : Step}

/-! ### Notes -/

theorem exists_ordinal (n : Nat) :
    ∃ ending : List Char, ending.length = 2 ∧ (ordinal n).toList = (toString n).toList ++ ending := by
  refine ⟨_, ?_, String.toList_append⟩
  repeat' split
  all_goals rfl

theorem ordinal_inj {n' : Nat} (same : ordinal n = ordinal n') : n = n' := by
  obtain ⟨ending, length, is_ordinal⟩ := exists_ordinal n
  obtain ⟨ending', length', is_ordinal'⟩ := exists_ordinal n'
  have lists := congrArg String.toList same
  rw [is_ordinal, is_ordinal'] at lists
  exact digits_inj (append_inj_left' lists (length.trans length'.symm))

namespace Step

def isNumbered (note : String) : Bool := (note.toList.drop 3).head?.any Char.isDigit

theorem isNumbered_ordinal (n : Nat) (rest : String) :
    isNumbered ("in " ++ ordinal n ++ rest) = true := by
  obtain ⟨ending, -, is_ordinal⟩ := exists_ordinal n
  obtain ⟨digit, others, digits⟩ := exists_cons_of_ne_nil (l := (toString n).toList) (by simp)
  have is_digit : digit.isDigit = true :=
    @isDigit_of_mem_digits n digit (digits ▸ mem_cons_self)
  simp only [isNumbered, String.toList_append, is_ordinal, digits]
  exact is_digit

theorem isNumbered_note (step : Step) : isNumbered step.note = match step with
      | .parameter _ | .element _ => true
      | .result | .content _ => false := by
  cases step with
  | parameter index | element index => exact isNumbered_ordinal _ _
  | result => decide
  | content con => cases con <;> decide

theorem index_inj {index index' : Nat} {rest : String}
    (same : "in " ++ ordinal (index + 1) ++ rest = "in " ++ ordinal (index' + 1) ++ rest) :
    index = index' := by
  have lists := congrArg String.toList same
  simp only [String.toList_append] at lists
  have ordinals := append_cancel_left (append_cancel_right lists)
  exact Nat.succ.inj (ordinal_inj (String.toList_injective ordinals))

theorem parameter_ne_element {first first' : String} :
    first ++ " parameter of function" ≠ first' ++ " element of tuple" := by
  intro same
  have last := congrArg (fun note => note.toList.getLast?) same
  simp [String.toList_append, getLast?_append] at last

theorem note_inj {step' : Step} (same : step.note = step'.note) : step = step' := by
  have numbered := congrArg isNumbered same
  rw [isNumbered_note, isNumbered_note] at numbered
  cases step with
  | result =>
    cases step' with
    | result => rfl
    | content con => cases con <;> exact absurd same (by decide)
    | _ => cases numbered
  | parameter index =>
    cases step' with
    | parameter index' => rw [index_inj same]
    | element index' => exact (parameter_ne_element same).elim
    | _ => cases numbered
  | element index =>
    cases step' with
    | parameter index' => exact (parameter_ne_element same.symm).elim
    | element index' => rw [index_inj same]
    | _ => cases numbered
  | content con =>
    cases step' with
    | result => cases con <;> exact absurd same (by decide)
    | content con' => cases con <;> cases con' <;> first | rfl | exact absurd same (by decide)
    | _ => cases numbered
end Step

/-! ### Parts -/

namespace Ty

def part? : Ty → Step → Option Ty
  | .function _ result, .result => some result
  | .function params _, .parameter index => params[index]?
  | .tuple elements, .element index => elements[index]?
  | .app con element, .content con' => if con = con' then some element else none
  | _, _ => none

/-- Where steps lead from a type, the outermost step first. -/
def follow (type : Ty) (steps : List Step) : Option Ty := steps.foldlM part? type

theorem part?_of_joint {joint : Step × Ty × Ty} (mem : joint ∈ (left.joints right).1) :
    left.part? joint.1 = some joint.2.1 ∧ right.part? joint.1 = some joint.2.2 := by
  have indexed {step : Nat → Step} {pairs : List Ty} {pairs' : List Ty}
      (mem : joint ∈ ((pairs.zip pairs').zipIdx).map fun entry => (step entry.2, entry.1)) :
      ∃ index, joint.1 = step index ∧ pairs[index]? = some joint.2.1 ∧ pairs'[index]? = some joint.2.2 := by
    obtain ⟨⟨pair, index⟩, there, rfl⟩ := mem_map.mp mem
    exact ⟨index, rfl, getElem?_zip_eq_some.mp (mem_zipIdx_iff_getElem?.mp there)⟩
  unfold joints at mem
  split at mem
  · split at mem
    · rcases mem_cons.mp mem with rfl | mem
      · exact ⟨rfl, rfl⟩
      · obtain ⟨index, step, parts⟩ := indexed mem
        simpa only [step, part?] using parts
    · obtain rfl := mem_singleton.mp mem
      exact ⟨rfl, rfl⟩
  · split at mem
    · obtain ⟨index, step, parts⟩ := indexed mem
      simpa only [step, part?] using parts
    · cases mem
  · split at mem
    · next same =>
      obtain rfl := mem_singleton.mp mem
      simp [part?, same]
    · cases mem
  · cases mem

theorem path_of_joints {clash : Clash} (verdict : (left.joints right).2 = some clash) : clash.path = [] := by
  unfold joints at verdict
  grind

end Ty

/-- The problem that stands between two types, with what is said of them. -/
inductive Problem.Between (store : Store) : Problem → Ty → Ty → Prop where
  | mismatch {left right : Ty} (compound : ∀ n, left ≠ .var n)
      (compound' : ∀ n, right ≠ .var n) (heads : left.head ≠ right.head) :
      Between store (.mismatch left.print right.print) left right
  | functions {params params' : List Ty} {result result' : Ty} (counts : params.length ≠ params'.length) :
      Between store (.arity .function params.length params'.length (Ty.function params result).print
        (Ty.function params' result').print) (.function params result) (.function params' result')
  | tuples {elements elements' : List Ty} (counts : elements.length ≠ elements'.length) :
      Between store (.arity .tuple elements.length elements'.length (Ty.tuple elements).print
        (Ty.tuple elements').print) (.tuple elements) (.tuple elements')
  | occursLeft {n : Nat} {type : Ty} (unlinked : store.link? n = none)
      (member : n ∈ type.vars) (differs : type ≠ .var n) :
      Between store (.occurs (Ty.var n).print type.print) (.var n) type
  | occursRight {n : Nat} {type : Ty} (unlinked : store.link? n = none)
      (member : n ∈ type.vars) (differs : type ≠ .var n) :
      Between store (.occurs (Ty.var n).print type.print) type (.var n)

namespace Store

variable {store later : Store} {clash : Clash} {problem : Problem}

theorem head_expand (compound : ∀ n, type ≠ .var n) : (store.expand type).head = type.head := by
  cases type with
  | var n => exact absurd rfl (compound n)
  | _ => simp [Ty.head]

theorem part?_expand {part : Ty} (leads : type.part? step = some part) :
    (store.expand type).part? step = some (store.expand part) := by
  unfold Ty.part? at leads
  split at leads <;> simp_all [Ty.part?]

theorem expand_compound (compound : ∀ n, type ≠ .var n) (n : Nat) : store.expand type ≠ .var n := by
  cases type with
  | var other => exact absurd rfl (compound other)
  | _ => simp

theorem between_of_joints (verdict : (left.joints right).2 = some clash) (differs : left ≠ right)
    (compound : ∀ n, left ≠ .var n) (compound' : ∀ n, right ≠ .var n)
    (told : clash.reason.told store = some problem) :
    problem.Between store (store.expand left) (store.expand right) := by
  have mismatch (heads : left.head ≠ right.head) (is_mismatch : ⟨.mismatch left right, []⟩ = clash) :
      problem.Between store (store.expand left) (store.expand right) := by
    subst is_mismatch
    cases told
    exact .mismatch (expand_compound compound) (expand_compound compound')
      (by rwa [head_expand compound, head_expand compound'])
  unfold Ty.joints at verdict
  split at verdict
  · split at verdict
    · cases verdict
    · next params result params' result' counts =>
      cases verdict
      cases told
      have counts' : (params.map store.expand).length ≠ (params'.map store.expand).length := by
        simpa using counts
      simpa [display] using
        @Problem.Between.functions store _ _ (store.expand result) (store.expand result') counts'
  · split at verdict
    · cases verdict
    · next elements elements' counts =>
      cases verdict
      cases told
      have counts' : (elements.map store.expand).length ≠ (elements'.map store.expand).length := by
        simpa using counts
      simpa [display] using @Problem.Between.tuples store _ _ counts'
  · split at verdict
    · cases verdict
    · next cons => exact mismatch (by simpa [Ty.head] using cons) (Option.some.inj verdict)
  · next functions tuples apps =>
    refine mismatch (fun heads => differs ?_) (Option.some.inj verdict)
    cases left <;> cases right <;> cases heads <;>
      first | rfl | exact (functions _ _ _ _ rfl rfl).elim | exact (tuples _ _ rfl rfl).elim |
        exact (apps _ _ _ _ rfl rfl).elim

def Points (later : Store) (clash : Clash) (left right : Ty) : Prop :=
  ∀ problem, clash.reason.told later = some problem →
    ∃ part part', (later.expand left).follow clash.path.reverse = some part ∧
      (later.expand right).follow clash.path.reverse = some part' ∧ problem.Between later part part'

theorem Keeps.expand_head (keeps : store.Keeps later) {head : Ty} (is_head : store.resolve type = head) :
    later.expand type = later.expand head :=
  keeps.expand_eq (by rw [← is_head, expand_resolve])

theorem bind_failed (unlinked : store.link? n = none) (covers : store.Covers type)
    (head : store.resolve type = type) (differs : type ≠ .var n)
    (failure : (store.bind n type).2 = some clash) :
    clash = ⟨.occurs n type, []⟩ ∧ (store.bind n type).1.link? n = none ∧
      n ∈ ((store.bind n type).1.expand type).vars ∧
      (store.bind n type).1.expand type ≠ .var n := by
  revert failure
  rw [bind]
  split
  · next found =>
    rw [missing?_eq_none.mpr covers] at found
    cases found
  · dsimp only
    split
    · rintro ⟨⟩
    · next found =>
      intro failure
      have same := store.occurs_sameLinks n type
      rw [same.expand]
      exact ⟨(Option.some.inj failure).symm, (same.2 n).trans unlinked,
        mem_expand_of_occurs unlinked (Bool.not_eq_false _ ▸ found), expand_ne_var head differs⟩

theorem traced_points (allowed rigid : Nat → Prop) : Traced allowed rigid
    (fun _ store left right outcome => store.Keeps outcome.1 ∧
      ∀ clash, outcome.2 = some clash → outcome.1.Points clash left right)
    (fun _ verdict store parts outcome => store.Keeps outcome.1 ∧
      ∀ clash, outcome.2 = some clash → verdict = some clash ∨
        ∃ joint ∈ parts, ∃ inner, clash = inner.under joint.1 ∧ outcome.1.Points inner joint.2.1 joint.2.2) where
  endless store left right := by
    refine ⟨.refl store, fun clash failure problem told => ?_⟩
    cases failure
    cases told
  same _ := ⟨.refl _, fun _ impossible => nomatch impossible⟩
  left {_ store left right type n} left_head right_head differs number_admits type_admits := by
    have unlinked := resolve_eq_var left_head
    have keeps := (attempt_bind unlinked number_admits type_admits).unified.keeps
    refine ⟨keeps, fun clash failure problem told => ?_⟩
    obtain ⟨rfl, unlinked', mem, differs'⟩ := bind_failed unlinked type_admits.covers
      (right_head ▸ store.resolve_resolve right) differs.symm failure
    cases told
    refine ⟨_, _, rfl, rfl, ?_⟩
    rw [keeps.expand_head left_head, keeps.expand_head right_head, expand_of_unlinked unlinked']
    exact .occursLeft unlinked' mem differs'
  right {_ store left right type n} left_head right_head compound number_admits type_admits := by
    have unlinked := resolve_eq_var right_head
    have keeps := (attempt_bind unlinked number_admits type_admits).unified.keeps
    refine ⟨keeps, fun clash failure problem told => ?_⟩
    obtain ⟨rfl, unlinked', mem, differs⟩ := bind_failed unlinked type_admits.covers
      (left_head ▸ store.resolve_resolve left) (compound n) failure
    cases told
    refine ⟨_, _, rfl, rfl, ?_⟩
    rw [keeps.expand_head left_head, keeps.expand_head right_head, expand_of_unlinked unlinked']
    exact .occursRight unlinked' mem differs
  parts {_ store left right type type' outcome} left_head right_head differs compound compound' := by
    rintro ⟨keeps, failed⟩
    refine ⟨keeps, fun clash failure problem told => ?_⟩
    rw [keeps.expand_head left_head, keeps.expand_head right_head]
    rcases failed clash failure with verdict | ⟨joint, mem, inner, rfl, points⟩
    · rw [Ty.path_of_joints verdict]
      exact ⟨_, _, rfl, rfl, between_of_joints verdict differs compound compound' told⟩
    · obtain ⟨part, part', follows, follows', between⟩ := points problem told
      obtain ⟨leads, leads'⟩ := Ty.part?_of_joint mem
      refine ⟨part, part', ?_, ?_, between⟩
      · simpa [Clash.under, Ty.follow, part?_expand leads] using follows
      · simpa [Clash.under, Ty.follow, part?_expand leads'] using follows'
  done := ⟨.refl _, fun _ => .inl⟩
  next := by
    rintro fuel verdict store between step left right parts outcome - ⟨keeps, -⟩ ⟨keeps', failed⟩
    refine ⟨keeps.trans keeps', fun clash failure => (failed clash failure).imp_right ?_⟩
    rintro ⟨joint, mem, there⟩
    exact ⟨joint, mem_cons_of_mem _ mem, there⟩
  fails := by
    rintro fuel verdict store later step left right parts clash ⟨keeps, points⟩
    refine ⟨keeps, fun outer failure => .inr ⟨_, .head _, clash, ?_, points clash rfl⟩⟩
    exact (Option.some.inj failure).symm

/-- A failed call is explained by notes for steps, the innermost first, and one that shows both types. The
notes tell the steps, and these lead from the types to parts that the problem stands between. -/
theorem unify_explained (left_covers : store.Covers left) (right_covers : store.Covers right)
    (failure : store.unify left right = (later, some clash)) :
    ∃ (problem : Problem) (steps : List Step) (part part' : Ty),
      clash.explain later left right = .ok (problem, steps.map Step.note ++
        [s!"while unifying '{(later.expand left).print}' and '{(later.expand right).print}'"]) ∧
      (∀ others : List Step, others.map Step.note = steps.map Step.note → others = steps) ∧
      (later.expand left).follow steps.reverse = some part ∧
      (later.expand right).follow steps.reverse = some part' ∧ problem.Between later part part' := by
  have attempt := attempt_unify left_covers.admits right_covers.admits
  have failure' : (store.unify left right).2 = some clash := congrArg Prod.snd failure
  have ends := unify_ends left_covers.admits right_covers.admits failure'
  have points := ((traced_points _ _).run _ store left right left_covers.admits right_covers.admits).2
    clash failure'
  change (store.unify left right).1.Points clash left right at points
  rw [failure] at attempt points
  have keeps := attempt.unified.keeps
  obtain ⟨problem, told, explained⟩ :=
    (attempt.shown rfl).explain ends (keeps.covers left_covers) (keeps.covers right_covers)
  obtain ⟨part, part', follows, follows', between⟩ := points problem told
  exact ⟨problem, clash.path, part, part', explained,
    fun _ same => (List.map_inj_right fun _ _ => Step.note_inj).mp same, follows, follows', between⟩

def arrayUser : Ty := .function [.var 0, .option (.var 1)] .unit

def intUser : Ty := .function [.array .int, .option .bool] .unit

/-- What the first parameter links does not fit the second one. -/
theorem unify_explained_linkedPair :
    ∃ (problem : Problem) (steps : List Step) (part part' : Ty),
      Clash.explain ⟨.mismatch .int .bool, [.content .option, .parameter 1]⟩
        (linkedPair.unify arrayUser intUser).1 arrayUser intUser = .ok (problem, steps.map Step.note ++
          ["while unifying 'int array -> int option -> unit' and 'int array -> bool option -> unit'"]) ∧
      ((linkedPair.unify arrayUser intUser).1.expand arrayUser).follow steps.reverse = some part ∧
      ((linkedPair.unify arrayUser intUser).1.expand intUser).follow steps.reverse = some part' ∧
      problem.Between (linkedPair.unify arrayUser intUser).1 part part' := by
  obtain ⟨problem, steps, part, part', explained, -, follows, follows', between⟩ :=
    @unify_explained arrayUser intUser linkedPair _ ⟨.mismatch .int .bool, [.content .option, .parameter 1]⟩
      (missing?_eq_none.mp (by decide)) (missing?_eq_none.mp (by decide)) (Prod.ext rfl rfl)
  exact ⟨problem, steps, part, part', explained, follows, follows', between⟩

end Store

end MiddleEnd
