import MiddleEnd.Code.Forward

/-! The names that lowering hands out: temporaries start with a dollar sign, the names of binders do
not, and both are told apart by their numbers. -/

namespace MiddleEnd

open List

variable {n n' : Nat} {symbol : Symbol}

def isFine (name : String) : Prop := name ≠ "" ∧ isTemporary name = false

def temporary (n : Nat) : String := "$" ++ toString (n + 1)

theorem isTemporary_temporary (n : Nat) : isTemporary (temporary n) = true := by
  simp [isTemporary, temporary, String.toList_append]

theorem digits_inj (same : (toString n).toList = (toString n').toList) : n = n' := by
  have values := congrArg (fun digits => Nat.ofDigitChars 10 digits 0) same
  simpa [Nat.toString_eq_ofList_toDigits] using values

theorem temporary_inj (same : temporary n = temporary n') : n = n' := by
  have lists := congrArg String.toList same
  simp only [temporary, String.toList_append] at lists
  exact Nat.succ.inj (digits_inj (append_cancel_left lists))

theorem isDigit_of_mem_digits {character : Char} (mem : character ∈ (toString n).toList) :
    character.isDigit = true := by
  rw [Nat.toString_eq_ofList_toDigits, String.toList_ofList] at mem
  exact Nat.isDigit_of_mem_toDigits (by omega) (by omega) mem

theorem not_mem_digits (n : Nat) : '$' ∉ (toString n).toList :=
  fun mem => absurd (isDigit_of_mem_digits mem) (by decide)

theorem suffix_inj {before before' after after' : List Char} (clean : '$' ∉ after)
    (clean' : '$' ∉ after') (same : before ++ '$' :: after = before' ++ '$' :: after') :
    after = after' := by
  rcases append_eq_append_iff.mp same with ⟨middle, rfl, rest⟩ | ⟨middle, rfl, rest⟩
  · cases middle with
    | nil => simpa using rest
    | cons _ _ =>
      simp only [cons_append, List.cons.injEq] at rest
      exact absurd (rest.2 ▸ by simp) clean
  · cases middle with
    | nil => simpa using rest.symm
    | cons _ _ =>
      simp only [cons_append, List.cons.injEq] at rest
      exact absurd (rest.2 ▸ by simp) clean'

namespace Symbol

theorem name_inj {symbol' : Symbol} (same : symbol.name = symbol'.name) :
    symbol.number = symbol'.number := by
  have lists := congrArg String.toList same
  simp only [name, String.toList_append] at lists
  have digits := suffix_inj (not_mem_digits _) (not_mem_digits _) (by simpa [append_assoc] using lists)
  exact Nat.succ.inj (digits_inj digits)

theorem nodup_names {symbols : List Symbol} (distinct : (symbols.map number).Nodup) :
    (symbols.map name).Nodup := by
  rw [Nodup, pairwise_map] at distinct ⊢
  exact distinct.imp fun apart same => apart (name_inj same)

theorem isTemporary_name (fine : isFine symbol.display) : isTemporary symbol.name = false := by
  obtain ⟨filled, clean⟩ := fine
  cases chars : symbol.display.toList with
  | nil => exact absurd (String.toList_inj.mp chars) filled
  | cons _ _ =>
    simpa [isTemporary, name, String.toList_append, chars] using clean

end Symbol

end MiddleEnd
