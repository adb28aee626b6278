import MiddleEnd.Ty.Store

/-! Unification: making two types equal by linking variables. -/

namespace MiddleEnd

/-- A step from a type to one of its parts. -/
inductive Step where
  | result
  | parameter (index : Nat)
  | element (index : Nat)
  | content (constructor : Constructor)
  deriving DecidableEq

def ordinal (n : Nat) : String :=
  let ending :=
    if 11 ≤ n % 100 ∧ n % 100 ≤ 13 then "th"
    else if n % 10 = 1 then "st"
    else if n % 10 = 2 then "nd"
    else if n % 10 = 3 then "rd"
    else "th"
  toString n ++ ending

def Step.note : Step → String
  | result => "in return type of function"
  | parameter index => "in " ++ ordinal (index + 1) ++ " parameter of function"
  | element index => "in " ++ ordinal (index + 1) ++ " element of tuple"
  | content con => "in element type of " ++ con.name

inductive Reason where
  | mismatch (left right : Ty)
  | arity (shape : Shape) (leftCount rightCount : Nat) (left right : Ty)
  | occurs (number : Nat) (type : Ty)
  | missing (number : Nat)
  /-- The types are nested deeper than any types are. -/
  | endless

/-- Why two types cannot be made equal, and at which part of them, innermost step first. -/
structure Clash where
  reason : Reason
  path : List Step := []

def Clash.under (clash : Clash) (step : Step) : Clash := { clash with path := clash.path ++ [step] }

namespace Reason

def problem (store : Store) : Reason → Except Fault Problem
  | mismatch left right =>
    return .mismatch (← store.displayChecked left) (← store.displayChecked right)
  | arity shape leftCount rightCount left right =>
    return .arity shape leftCount rightCount
      (← store.displayChecked left) (← store.displayChecked right)
  | occurs number type => return .occurs (Ty.var number).print (← store.displayChecked type)
  | missing number => throw (.missingVariable number)
  | endless => throw .endlessTypes

end Reason

def Clash.explain (clash : Clash) (store : Store) (left right : Ty) :
    Except Fault (Problem × List String) := do
  let problem ← clash.reason.problem store
  let leftText ← store.displayChecked left
  let rightText ← store.displayChecked right
  return (problem, clash.path.map Step.note ++ [s!"while unifying '{leftText}' and '{rightText}'"])

namespace Store

def scan (visit : Nat → Store → Bool × Store) : List Nat → Store → Bool × Store
  | [], store => (false, store)
  | number :: numbers, store =>
    match visit number store with
    | (true, store) => (true, store)
    | (false, store) => scan visit numbers store

def seek (number level : Nat) : Nat → Ty → Store → Bool × Store
  | 0, _, store => (false, store)
  | fuel + 1, type, store =>
    scan (fun other store =>
      if other = number then (true, store)
      else
        match store.link? other with
        | some target => seek number level fuel target store
        | none => (false, store.lower other level))
      type.vars store

/-- Looks for a variable in a type. The other variables met on the way come to belong to the binding
of the variable, so their level is lowered to its level. -/
def occurs (store : Store) (number : Nat) (type : Ty) : Bool × Store :=
  seek number (store.level number) (store.size + 1) type store

def SameLinks (store store' : Store) : Prop :=
  store'.size = store.size ∧ ∀ number, store'.link? number = store.link? number

theorem SameLinks.refl (store : Store) : store.SameLinks store := ⟨rfl, fun _ => rfl⟩

theorem SameLinks.trans {first second third : Store} (left : first.SameLinks second)
    (right : second.SameLinks third) : first.SameLinks third :=
  ⟨right.1.trans left.1, fun number => (right.2 number).trans (left.2 number)⟩

theorem SameLinks.lower (store : Store) (number level : Nat) :
    store.SameLinks (store.lower number level) :=
  ⟨by simp [Store.lower, Store.modify, size], fun other => Cells.link?_modify_of_link _ _ _ _ fun _ => rfl⟩

theorem SameLinks.reaches {store store' : Store} (same : store.SameLinks store') {number last : Nat}
    (reaches : store'.cells.Reaches number last) : store.cells.Reaches number last := by
  induction reaches with
  | here number => exact .here number
  | step linked member _ ih => exact .step ((same.2 _).symm.trans linked) member ih

theorem scan_spec {visit : Nat → Store → Bool × Store} {keeps : Store → Prop} {missed : Nat → Prop}
    {numbers : List Nat}
    (step : ∀ number ∈ numbers, ∀ store, keeps store →
      keeps (visit number store).2 ∧ ((visit number store).1 = false → missed number))
    {store : Store} (kept : keeps store) :
    keeps (scan visit numbers store).2 ∧
      ((scan visit numbers store).1 = false → ∀ number ∈ numbers, missed number) := by
  induction numbers generalizing store with
  | nil => exact ⟨kept, fun _ _ member => nomatch member⟩
  | cons first rest ih =>
    obtain ⟨kept', missed'⟩ := step first List.mem_cons_self store kept
    rw [scan]
    split
    · next found =>
      rw [found] at kept'
      exact ⟨kept', fun impossible => nomatch impossible⟩
    · next found =>
      rw [found] at kept' missed'
      obtain ⟨keeps', rest_missed⟩ :=
        ih (fun number member => step number (List.mem_cons_of_mem _ member)) kept'
      refine ⟨keeps', fun none_found number member => ?_⟩
      rcases List.mem_cons.mp member with rfl | member
      · exact missed' rfl
      · exact rest_missed none_found number member

theorem seek_spec (number level : Nat) {rank : Nat → Nat} {store : Store}
    (ranked : store.cells.Ranked rank) (fuel : Nat) (type : Ty) {store' : Store}
    (same : store.SameLinks store') (shallow : ∀ next ∈ type.vars, rank next < fuel) :
    store.SameLinks (seek number level fuel type store').2 ∧
      ((seek number level fuel type store').1 = false →
        ∀ next ∈ type.vars, ¬ store.cells.Reaches next number) := by
  induction fuel generalizing type store' with
  | zero =>
    exact ⟨same, fun _ next member => absurd (shallow next member) (Nat.not_lt_zero _)⟩
  | succ fuel ih =>
    apply scan_spec _ same
    intro next member store'' same''
    split
    · exact ⟨same'', fun impossible => nomatch impossible⟩
    · next other =>
      cases linked : store''.link? next with
      | some target =>
        have linked' : store.cells.link? next = some target := (same''.2 next).symm.trans linked
        obtain ⟨kept, apart⟩ := ih target same'' fun further member' => by
          have lower := (ranked next target linked' further member').2
          have bound := shallow next member
          omega
        refine ⟨kept, fun none_found reaches => ?_⟩
        cases reaches with
        | here => exact other rfl
        | step linked'' member' onward =>
          obtain rfl : target = _ := Option.some.inj (linked'.symm.trans linked'')
          exact apart none_found _ member' onward
      | none =>
        have unlinked : store.cells.link? next = none := (same''.2 next).symm.trans linked
        refine ⟨same''.trans (.lower store'' next level), fun _ reaches => ?_⟩
        cases reaches with
        | here => exact other rfl
        | step linked' _ _ => cases unlinked.symm.trans linked'

theorem occurs_sameLinks (store : Store) (number : Nat) (type : Ty) :
    store.SameLinks (store.occurs number type).2 := by
  obtain ⟨rank, ranked, bounded⟩ := store.acyclic.bounded
  exact (seek_spec _ _ ranked _ type (.refl store) fun next _ => Nat.lt_succ_of_le (bounded next)).1

theorem avoids_of_occurs {store : Store} {number : Nat} {type : Ty}
    (made : store.missing? type = none) (apart : (store.occurs number type).1 = false) :
    (store.occurs number type).2.Avoids type number := by
  obtain ⟨rank, ranked, bounded⟩ := store.acyclic.bounded
  obtain ⟨same, missed⟩ :=
    seek_spec number (store.level number) ranked (store.size + 1) type (.refl store) fun next _ => Nat.lt_succ_of_le (bounded next)
  intro next member
  refine ⟨?_, fun reaches => missed apart next member (same.reaches reaches)⟩
  have not_missing := List.find?_eq_none.mp made next member
  exact Nat.lt_of_lt_of_eq (by simpa using not_missing) same.1.symm

def bind (store : Store) (number : Nat) (type : Ty) : Store × Option Clash :=
  match made : store.missing? type with
  | some missing => (store, some ⟨.missing missing, []⟩)
  | none =>
    let found := store.occurs number type
    if apart : found.1 = false then
      (found.2.setLink number type (avoids_of_occurs made apart), none)
    else (found.2, some ⟨.occurs number type, []⟩)

def unifyPairs (unify : Store → Ty → Ty → Store × Option Clash) (step : Nat → Step) :
    Nat → List (Ty × Ty) → Store → Store × Option Clash
  | _, [], store => (store, none)
  | index, (left, right) :: pairs, store =>
    match unify store left right with
    | (store, none) => unifyPairs unify step (index + 1) pairs store
    | (store, some clash) => (store, some (clash.under (step index)))

def missingHead? (store : Store) : Ty → Option Nat
  | .var number => if store.size ≤ number then some number else none
  | _ => none

def unifyWithin : Nat → Store → Ty → Ty → Store × Option Clash
  | 0, store, _, _ => (store, some ⟨.endless, []⟩)
  | fuel + 1, store, left, right =>
    let left := store.resolve left
    let right := store.resolve right
    match store.missingHead? left <|> store.missingHead? right with
    | some number => (store, some ⟨.missing number, []⟩)
    | none =>
      if left = right then (store, none)
      else
        match left, right with
        | .var number, _ => store.bind number right
        | _, .var number => store.bind number left
        | .function params result, .function params' result' =>
          match unifyWithin fuel store result result' with
          | (store, some clash) => (store, some (clash.under .result))
          | (store, none) =>
            if params.length = params'.length then
              unifyPairs (unifyWithin fuel) .parameter 0 (params.zip params') store
            else
              (store, some ⟨.arity .function params.length params'.length left right, []⟩)
        | .tuple elements, .tuple elements' =>
          if elements.length = elements'.length then
            unifyPairs (unifyWithin fuel) .element 0 (elements.zip elements') store
          else
            (store, some ⟨.arity .tuple elements.length elements'.length left right, []⟩)
        | .app con element, .app con' element' =>
          if con = con' then
            match unifyWithin fuel store element element' with
            | (store, some clash) => (store, some (clash.under (.content con)))
            | (store, none) => (store, none)
          else (store, some ⟨.mismatch left right, []⟩)
        | _, _ => (store, some ⟨.mismatch left right, []⟩)

def linkHeight (store : Store) : Nat :=
  (store.cells.toList.map (fun cell => (cell.link.map Ty.height).getD 0)).foldl max 0

/-- No part of a type lies deeper than this once links are followed: a path meets each variable at
most once, and between two of them it stays inside one link. -/
def depthBound (store : Store) (left right : Ty) : Nat :=
  (store.size + 2) * (max store.linkHeight (max left.height right.height) + 1) + 1

/-- Makes two types equal by linking variables, or says why they cannot be. A failed attempt keeps
the links it has made. -/
def unify (store : Store) (left right : Ty) : Store × Option Clash :=
  unifyWithin (store.depthBound left right) store left right

end Store

end MiddleEnd
