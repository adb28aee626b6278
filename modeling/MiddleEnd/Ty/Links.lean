import MiddleEnd.Ty.Basic

/-! Variables of type inference as cells of an array, and the links between them. No way along links
comes back to where it started, so every walk along them ends. -/

namespace MiddleEnd

/-- A variable may be linked to the type it stands for. Its level is the depth of the binding it
belongs to. It is generalized once a type scheme has turned it into a placeholder. -/
structure TyVar where
  link : Option Ty := none
  level : Nat
  generalized : Bool := false

abbrev Cells := Array TyVar

namespace Cells

def link? (cells : Cells) (number : Nat) : Option Ty := cells[number]?.bind TyVar.link

/-- Links lead to variables that were made, each one lower than the variable it is linked from. -/
def Ranked (cells : Cells) (rank : Nat → Nat) : Prop :=
  ∀ number type, cells.link? number = some type →
    ∀ next ∈ type.vars, next < cells.size ∧ rank next < rank number

def Acyclic (cells : Cells) : Prop := ∃ rank, cells.Ranked rank

/-- Whether a way along links leads from one variable to another. -/
inductive Reaches (cells : Cells) : Nat → Nat → Prop
  | here (number : Nat) : Reaches cells number number
  | step {number next last : Nat} {type : Ty} (linked : cells.link? number = some type)
      (member : next ∈ type.vars) (onward : Reaches cells next last) : Reaches cells number last

theorem link?_push (cells : Cells) (level number : Nat) :
    link? (cells.push ⟨none, level, false⟩) number = cells.link? number := by
  unfold link?
  rw [Array.getElem?_push]
  split
  · next same => simp [same]
  · rfl

theorem link?_modify (cells : Cells) (number other : Nat) (change : TyVar → TyVar) :
    link? (cells.modify number change) other =
      if other = number then cells[other]?.bind (fun cell => (change cell).link)
      else cells.link? other := by
  unfold link?
  rw [Array.getElem?_modify]
  by_cases same : other = number
  · subst same
    cases cells[other]? <;> simp
  · rw [if_neg (Ne.symm same), if_neg same]

theorem link?_modify_of_link (cells : Cells) (number other : Nat) (change : TyVar → TyVar)
    (kept : ∀ cell, (change cell).link = cell.link) :
    link? (cells.modify number change) other = cells.link? other := by
  rw [link?_modify]
  split
  · simp [link?, kept]
  · rfl

theorem acyclic_empty : Acyclic #[] :=
  ⟨fun _ => 0, fun number type linked => by simp [link?] at linked⟩

theorem Acyclic.of_link? {cells cells' : Cells} (acyclic : cells.Acyclic)
    (size : cells.size ≤ cells'.size) (links : ∀ number, cells'.link? number = cells.link? number) :
    cells'.Acyclic := by
  obtain ⟨rank, ranked⟩ := acyclic
  refine ⟨rank, fun number type linked next member => ?_⟩
  rw [links] at linked
  obtain ⟨made, lower⟩ := ranked number type linked next member
  exact ⟨Nat.lt_of_lt_of_le made size, lower⟩

theorem le_maxRank (rank : Nat → Nat) {numbers : List Nat} {number : Nat}
    (member : number ∈ numbers) : rank number ≤ (numbers.map rank).foldr max 0 := by
  induction numbers with
  | nil => cases member
  | cons first rest ih =>
    simp only [List.map_cons, List.foldr_cons]
    rcases List.mem_cons.mp member with rfl | member
    · exact Nat.le_max_left _ _
    · exact Nat.le_trans (ih member) (Nat.le_max_right _ _)

theorem Acyclic.link {cells : Cells} (acyclic : cells.Acyclic) {number : Nat} {type : Ty}
    (made : ∀ next ∈ type.vars, next < cells.size)
    (apart : ∀ next ∈ type.vars, ¬ cells.Reaches next number) :
    Acyclic (cells.modify number (fun cell => { cell with link := some type })) := by
  classical
  obtain ⟨rank, ranked⟩ := acyclic
  -- What leads to the variable goes above everything that the variable now leads to.
  let lift := (type.vars.map rank).foldr max 0 + 1
  refine ⟨fun v => if cells.Reaches v number then rank v + lift else rank v, ?_⟩
  intro from' target linked next member
  rw [link?_modify] at linked
  rw [Array.size_modify]
  by_cases same : from' = number
  · subst same
    rw [if_pos rfl] at linked
    have target_eq : target = type := by
      cases found : cells[from']? with
      | none => simp [found] at linked
      | some cell => simpa [found] using linked.symm
    subst target_eq
    refine ⟨made next member, ?_⟩
    have below := le_maxRank rank member
    simp only [Reaches.here, if_true, apart next member, if_false]
    omega
  · rw [if_neg same] at linked
    obtain ⟨exists', lower⟩ := ranked from' target linked next member
    refine ⟨exists', ?_⟩
    by_cases onward : cells.Reaches next number
    · have back : cells.Reaches from' number := .step linked member onward
      simp only [onward, back, if_true]
      omega
    · simp only [onward, if_false]
      split <;> omega

/-! ### Walks along links are short -/

theorem countP_lt_countP {α : Type} {p q : α → Bool} {values : List α} (value : α)
    (sub : ∀ v, p v = true → q v = true) (member : value ∈ values) (gained : q value = true)
    (missed : p value = false) : values.countP p < values.countP q := by
  induction values with
  | nil => cases member
  | cons first rest ih =>
    have rest_le : rest.countP p ≤ rest.countP q := List.countP_mono_left fun v _ => sub v
    rcases List.mem_cons.mp member with rfl | member
    · rw [List.countP_cons_of_pos gained, List.countP_cons_of_neg (by simp [missed])]
      omega
    · have lt := ih member
      cases holds : p first with
      | true => rw [List.countP_cons_of_pos holds, List.countP_cons_of_pos (sub first holds)]; omega
      | false =>
        rw [List.countP_cons_of_neg (by simp [holds])]
        exact Nat.lt_of_lt_of_le lt (by rw [List.countP_cons]; omega)

theorem Acyclic.bounded {cells : Cells} (acyclic : cells.Acyclic) :
    ∃ rank, cells.Ranked rank ∧ ∀ number, rank number ≤ cells.size := by
  obtain ⟨rank, ranked⟩ := acyclic
  let below (number : Nat) : Nat :=
    (List.range cells.size).countP (fun other => decide (rank other < rank number))
  refine ⟨below, fun number type linked next member => ?_, fun number => ?_⟩
  · obtain ⟨made, lower⟩ := ranked number type linked next member
    refine ⟨made, countP_lt_countP next (fun v lt => ?_) (by simpa using made) ?_ ?_⟩
    · simp only [decide_eq_true_eq] at lt ⊢
      omega
    · simpa using lower
    · simp
  · exact Nat.le_trans List.countP_le_length (by simp)

end Cells

end MiddleEnd
