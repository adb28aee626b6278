/-! Sorting by insertion. Of two values that neither order prefers, the earlier one stays first. -/

namespace MiddleEnd

variable {α : Type}

def insertBy (le : α → α → Bool) (value : α) : List α → List α
  | [] => [value]
  | first :: rest =>
    if le value first then value :: first :: rest else first :: insertBy le value rest

def sortBy (le : α → α → Bool) : List α → List α
  | [] => []
  | first :: rest => insertBy le first (sortBy le rest)

theorem insertBy_perm (le : α → α → Bool) (value : α) (values : List α) :
    (insertBy le value values).Perm (value :: values) := by
  induction values with
  | nil => exact .refl _
  | cons first rest ih =>
    rw [insertBy]
    split
    · exact .refl _
    · exact (ih.cons first).trans (.swap value first rest)

theorem sortBy_perm (le : α → α → Bool) (values : List α) : (sortBy le values).Perm values := by
  induction values with
  | nil => exact .refl _
  | cons first rest ih => exact (insertBy_perm le first _).trans (ih.cons first)

theorem mem_sortBy {le : α → α → Bool} {value : α} {values : List α} :
    value ∈ sortBy le values ↔ value ∈ values :=
  (sortBy_perm le values).mem_iff

end MiddleEnd
