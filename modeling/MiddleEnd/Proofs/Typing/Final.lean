import MiddleEnd.Proofs.Typing.Close
import MiddleEnd.Proofs.Typing.Rules

/-! Final types of what inference has found: in a store that has left generalized variables alone, a
binding has the type of its bound expression, what it quantifies stands nowhere around it, and the
record of a use gives the type of the use. -/

namespace MiddleEnd

open List

variable {store : Store} {final state : Inference} {type : Ty} {aliases : List Ty} {watch : Watch}
  {level : Nat} {ctx : Context} {scope : List Symbol} {n : Nat} {scheme : Ty}

namespace Store

variable {final : Store}

theorem closed_eq_subst (store : Store) (type : Ty) :
    store.closed type = type.subst (fun n => store.closed (.var n)) .generic := by
  rw [closed, expand_eq_subst, Ty.substVars, Ty.substVars, Ty.subst_subst]
  rfl

theorem mem_generics_closed : n ∈ (store.closed type).generics ↔
      n ∈ (store.expand type).vars ∨ n ∈ (store.expand type).generics := by
  simp [closed, Ty.substVars, Ty.mem_generics_subst]

theorem closed_thaw (unlinked : ∀ n ∈ scheme.generics, store.link? n = none) :
    store.closed scheme.thaw = store.closed scheme := by
  rw [closed_eq_subst, store.closed_eq_subst scheme, Ty.thaw, Ty.substGenerics, Ty.subst_subst]
  refine Ty.subst_congr (fun _ _ => rfl) fun n mem => ?_
  change store.closed (.var n) = .generic n
  rw [closed, expand_of_unlinked (unlinked n mem)]
  rfl

theorem closed_substGenerics {change : Nat → Ty}
    (apart : ∀ n ∈ scheme.vars, ∀ found ∈ (store.closed (.var n)).generics,
      change found = .generic found) :
    store.closed (scheme.substGenerics change) =
      (store.closed scheme).substGenerics (fun n => store.closed (change n)) := by
  rw [closed_eq_subst, store.closed_eq_subst scheme, Ty.substGenerics, Ty.substGenerics, Ty.subst_subst,
    Ty.subst_subst]
  refine Ty.subst_congr (fun n mem => ?_) fun n mem => ?_
  · change store.closed (.var n) = (store.closed (.var n)).subst .var _
    conv => lhs; rw [← Ty.subst_self (store.closed (.var n))]
    refine Ty.subst_congr (fun _ _ => rfl) fun found here => ?_
    rw [apart n mem found here]
    rfl
  · rw [Ty.subst_generic, ← closed_eq_subst]

end Store

section

mutual
theorem Describes.close (store : Store) : ∀ {hint : Annotation} {type : Ty}, Describes aliases hint type →
    Describes (aliases.map store.closed) hint (store.closed type)
  | .hole _, _, _ => trivial
  | .prim _ _, _, same => congrArg store.closed same
  | .synonym _ index, type, found => by
    rw [Describes, getElem?_map]
    exact congrArg (Option.map store.closed) found
  | .app _ con _, _, ⟨element, same, inner⟩ =>
    ⟨store.closed element, (congrArg store.closed same).trans (store.closed_app con element), inner.close store⟩
  | .tuple _ _, _, ⟨elements, same, inner⟩ =>
    ⟨elements.map store.closed, (congrArg store.closed same).trans (store.closed_tuple elements),
      DescribesAll.close store inner⟩
  | .function _ _ _, _, ⟨params, result, same, inner, last⟩ =>
    ⟨params.map store.closed, store.closed result,
      (congrArg store.closed same).trans (store.closed_function params result),
      DescribesAll.close store inner, last.close store⟩
theorem DescribesAll.close (store : Store) : ∀ {hints : List Annotation} {types : List Ty},
    DescribesAll aliases hints types → DescribesAll (aliases.map store.closed) hints (types.map store.closed)
  | [], [], _ => trivial
  | _ :: _, _ :: _, ⟨first, rest⟩ => ⟨first.close store, DescribesAll.close store rest⟩
end

end

def Context.assumes (ctx : Context) (store : Store) : Assumptions :=
  ctx.locals.map fun entry => (entry.1, ⟨store.closed entry.2, entry.2.generics⟩)

/-- The final types of externals and aliases. -/
def Inference.globals (state : Inference) (aliases : List Ty) : Globals where
  externals name := (state.externals.find? name).map fun external => state.store.closed external.type
  aliases := aliases.map state.store.closed

structure Store.Unquantified (store : Store) (type : Ty) : Prop where
  unfrozen : ∀ n ∈ (store.expand type).vars, store.isGeneralized n = false
  plain : (store.expand type).generics = []

structure Inference.Follows (state final : Inference) (aliases : List Ty) : Prop where
  leaves : state.store.Leaves final.store
  external {name : String} {external : External} (found : state.externals.find? name = some external) :
    final.externals.find? name = some external
  externals : ∀ entry ∈ final.externals.entries, final.store.Unquantified entry.2.type
  aliases : ∀ type ∈ aliases, final.store.Unquantified type

namespace Watch

theorem Moves.follows {later : Inference} (moves : watch.Moves level state later) (alone : watch.alone)
    (follows : later.Follows final aliases) : state.Follows final aliases :=
  { follows with
    leaves := (moves.leaves alone).trans follows.leaves
    external := fun found => follows.external (moves.reached.external found) }

theorem Holds.plain_final (holds : watch.Holds state level type)
    (leaves : state.store.Leaves final.store) : (final.store.expand type).generics = [] := by
  rw [← leaves.keeps.expand_expand, Store.generics_expand_eq_nil]
  exact ⟨fun _ there => leaves.plain (Store.link?_of_mem_expand there),
    eq_nil_iff_forall_not_mem.mpr holds.generics⟩

theorem Holds.apart_final (holds : watch.Holds state level type) (alone : watch.alone)
    (leaves : state.store.Leaves final.store) (frozen : state.store.isGeneralized n = true) :
    n ∉ (final.store.closed type).generics := by
  rw [Store.mem_generics_closed, holds.plain_final leaves, mem_nil_iff, or_false]
  intro mem
  obtain ⟨_, there, mem⟩ := leaves.keeps.mem_vars_expand.mp mem
  refine leaves.apart frozen (Store.link?_of_mem_expand there) ?_ mem
  rintro rfl
  have thawed := (holds.vars n there).unfrozen alone
  rw [frozen] at thawed
  cases thawed

theorem Scheme.mem_generics_final (known : watch.Scheme state level scheme) (alone : watch.alone)
    (leaves : state.store.Leaves final.store) (frozen : state.store.isGeneralized n = true) :
    n ∈ (final.store.closed scheme).generics ↔ n ∈ scheme.generics := by
  rw [Store.closed_eq_subst, Ty.mem_generics_subst]
  constructor
  · rintro (⟨other, there, mem⟩ | ⟨other, there, mem⟩)
    · exact absurd mem ((known.vars other there).apart_final alone leaves frozen)
    · obtain rfl : n = other := by simpa using mem
      exact there
  · exact fun mem => .inr ⟨n, mem, by simp⟩

end Watch

theorem Instantiation.Fits.closed_type {made : Instantiation} (fits : made.Fits)
    (apart : ∀ n ∈ made.scheme.vars, ∀ found ∈ (store.closed (.var n)).generics,
      found ∉ made.scheme.generics) :
    store.closed made.type = (store.closed made.scheme).substGenerics fun n =>
      ((made.close store).mapping.lookup n).getD (.generic n) := by
  rw [fits.type_eq, Store.closed_substGenerics]
  · refine congrArg (Ty.substGenerics · _) (funext fun n => ?_)
    rw [Instantiation.close, lookup_map_snd]
    cases made.mapping.lookup n <;> rfl
  · intro n mem found here
    cases present : made.mapping.lookup found with
    | none => rfl
    | some _ =>
      have quantified : found ∈ made.scheme.generics :=
        (fits.keys found).mp (mem_map_of_mem (f := Prod.fst) (mem_of_lookup present))
      exact absurd quantified (apart n mem found here)

namespace Infer

variable {binder : Binder Bound Annotation}

theorem Binds.closed_eq (binds : Binds watch state ctx level binder type) (alone : watch.alone)
    (leaves : state.store.Leaves final.store) :
    final.store.closed binder.name.type = final.store.closed type := by
  rw [← leaves.keeps.closed_eq binds.same, Store.closed_thaw fun n mem => ?_]
  obtain ⟨frozen, unlinked⟩ := binds.scheme.frozen alone n mem
  exact leaves.unlinked frozen unlinked

theorem Binds.quantifies (binds : Binds watch state ctx level binder type) (alone : watch.alone)
    (fits : watch.Fits ctx state level scope) (follows : state.Follows final aliases) :
    Quantifies (final.globals aliases) (ctx.assumes final.store)
      ⟨final.store.closed binder.name.type, binder.name.type.generics⟩ := by
  have unquantified {n : Nat} (mem : n ∈ binder.name.type.generics) {other : Ty}
      (known : final.store.Unquantified other) : n ∉ (final.store.closed other).generics := by
    rw [Store.mem_generics_closed, known.plain, mem_nil_iff, or_false]
    intro here
    have thawed := known.unfrozen n here
    rw [follows.leaves.frozen (binds.scheme.frozen alone n mem).1] at thawed
    cases thawed
  refine ⟨fun n mem => ?_, fun n mem _ there => ?_,
    fun n mem name found declared => ?_, fun n mem found there => ?_⟩
  · exact (binds.scheme.mem_generics_final alone follows.leaves
      (binds.scheme.frozen alone n mem).1).mpr mem
  · obtain ⟨⟨_, scheme⟩, here, rfl⟩ := mem_map.mp there
    rw [(fits.locals _ here).mem_generics_final alone follows.leaves
      (binds.scheme.frozen alone n mem).1]
    exact binds.unused alone n mem _ here
  · obtain ⟨_, found, rfl⟩ := Option.map_eq_some_iff.mp declared
    exact unquantified mem (follows.externals _ (NameMap.mem_of_find? found))
  · obtain ⟨synonym, here, rfl⟩ := mem_map.mp there
    exact unquantified mem (follows.aliases synonym here)

theorem describes_final {hint : Option Annotation} (hinted : Hinted state ctx hint type)
    (follows : state.Follows final ctx.aliases) :
    (final.globals ctx.aliases).Describes hint (final.store.closed type) := by
  intro here mem
  obtain ⟨_, describes, same⟩ := hinted here mem
  rw [← follows.leaves.keeps.closed_eq same]
  exact describes.close final.store

theorem lookup_assumes (found : ctx.locals.lookup n = some scheme) (store : Store) :
    (ctx.assumes store).lookup n = some ⟨store.closed scheme, scheme.generics⟩ := by
  rw [Context.assumes, lookup_map_snd (fun scheme : Ty => (⟨store.closed scheme, scheme.generics⟩ : Poly)),
    found]
  rfl

theorem Takes.refers {use : Use} (takes : Takes state ctx use type) (alone : watch.alone)
    (fits : watch.Fits ctx state level scope) (follows : state.Follows final ctx.aliases) :
    Refers (final.globals ctx.aliases) (ctx.assumes final.store) (use.close final.store)
      (final.store.closed type) := by
  cases takes with
  | @whole declared declares plain taken same =>
    have closed := follows.leaves.keeps.closed_eq same
    have taken' : (use.close final.store).instantiation = none := by rw [Use.close, taken]; rfl
    cases target : use.target with
    | bound _ =>
      rw [target] at declares
      exact .whole target (lookup_assumes declares final.store) plain closed taken'
    | external _ =>
      rw [target] at declares
      obtain ⟨external, found, rfl⟩ := declares
      refine .external target ?_ taken'
      rw [closed]
      exact congrArg (Option.map fun external => final.store.closed external.type) (follows.external found)
  | @copy symbol made target found taken type_eq fits' =>
    have known := fits.locals _ (mem_of_lookup found)
    have keys (n : Nat) :
        n ∈ (made.mapping.map fun entry => (entry.1, final.store.closed entry.2)).map Prod.fst ↔
          n ∈ made.scheme.generics := by
      rw [List.map_map]
      exact fits'.keys n
    have taken' : (use.close final.store).instantiation = some (made.close final.store) := by
      rw [Use.close, taken]
      rfl
    refine .copy target (lookup_assumes found final.store) taken' rfl keys ?_
      (congrArg final.store.closed type_eq) ?_
    · show ((made.mapping.map fun entry => (entry.1, final.store.closed entry.2)).map Prod.fst).Nodup
      rw [List.map_map]
      exact fits'.distinct
    · rw [← type_eq]
      refine fits'.closed_type fun n mem generic here quantified => ?_
      exact (known.vars n mem).apart_final alone follows.leaves (known.frozen alone generic quantified).1 here

end Infer

end MiddleEnd
