import MiddleEnd.Proofs.Ty.Level

/-! A successful unification is a sequence of bindings. It lowers the level of a variable only where
the variable comes to stand behind one of a lower level. -/

namespace MiddleEnd.Store

variable {store later : Store} {allowed rigid : Nat → Prop}

theorem traced_bindings {R : Store → Store → Prop} (refl : ∀ store, R store store)
    (trans : ∀ {first second third}, R first second → R second third → R first third)
    (bind : ∀ (store : Store) (n : Nat) (type : Ty), store.link? n = none →
      store.Admits allowed rigid (.var n) → store.Admits allowed rigid type →
      (store.bind n type).2 = none → R store (store.bind n type).1) :
    Traced allowed rigid (fun _ store _ _ outcome => outcome.2 = none → R store outcome.1)
      (fun _ _ store _ outcome => outcome.2 = none → R store outcome.1) where
  endless _ _ _ impossible := nomatch impossible
  same _ _ := refl _
  left left_head _ _ := bind _ _ _ (resolve_eq_var left_head)
  right _ right_head _ := bind _ _ _ (resolve_eq_var right_head)
  parts _ _ _ _ _ turns := turns
  done _ := refl _
  next _ first rest success := trans (first rfl) (rest success)
  fails _ impossible := nomatch impossible

/-! ### Levels -/

def Lowered (store later : Store) : Prop :=
  store.Keeps later ∧ ∀ n, later.link? n = none →
    later.level n = store.level n ∨
      ∃ source, store.link? source = none ∧ store.level source = later.level n ∧
        n ∈ (later.expand (.var source)).vars

theorem Lowered.refl (store : Store) : store.Lowered store := ⟨.refl store, fun _ _ => .inl rfl⟩

theorem Lowered.trans {first second third : Store} (left : first.Lowered second)
    (right : second.Lowered third) : first.Lowered third := by
  refine ⟨left.1.trans right.1, fun n unlinked => ?_⟩
  have between := right.1.unlinked unlinked
  rcases right.2 n unlinked with same | ⟨source, free, level_eq, mem⟩
  · rcases left.2 n between with same' | ⟨source, free, level_eq, mem⟩
    · exact .inl (same.trans same')
    · refine .inr ⟨source, free, level_eq.trans same.symm, ?_⟩
      refine right.1.mem_vars_expand.mpr ⟨n, mem, ?_⟩
      simp [expand_of_unlinked unlinked]
  · rcases left.2 source free with same | ⟨origin, free', level_eq', mem'⟩
    · exact .inr ⟨source, left.1.unlinked free, same.symm.trans level_eq, mem⟩
    · exact .inr ⟨origin, free', level_eq'.trans level_eq, right.1.mem_vars_expand.mpr ⟨source, mem', mem⟩⟩

theorem lowered_bind {n : Nat} {type : Ty} (unlinked : store.link? n = none)
    (made : n < store.size) (success : (store.bind n type).2 = none) :
    store.Lowered (store.bind n type).1 := by
  have same := store.occurs_sameLinks n type
  have made' : n < (store.occurs n type).2.size := same.1 ▸ made
  have unlinked' := (same.2 n).trans unlinked
  revert success
  rw [bind]
  split
  · simp
  · next none_missing =>
    dsimp only
    split
    · next apart =>
      intro _
      have avoids := avoids_of_occurs none_missing apart
      refine ⟨same.keeps.trans (keeps_setLink avoids made' unlinked'), fun other _ => ?_⟩
      rw [level_setLink]
      refine ((store.sought_occurs n type).level_cases other).imp_right fun found => ?_
      refine ⟨n, unlinked, found.1.symm, ?_⟩
      rw [expand_setLink avoids made' unlinked', expand_of_unlinked unlinked', Ty.substVars, Ty.subst_var,
        if_pos rfl, same.expand]
      exact mem_vars_expand.mpr found.2
    · simp

theorem lowered_unify {left right : Ty} (left_admits : store.Admits allowed rigid left)
    (right_admits : store.Admits allowed rigid right) (success : (store.unify left right).2 = none) :
    store.Lowered (store.unify left right).1 :=
  (traced_bindings .refl .trans fun _ n _ unlinked number_admits _ =>
    lowered_bind unlinked (number_admits.covers n (by simp))).run
    _ store left right left_admits right_admits success

end MiddleEnd.Store
