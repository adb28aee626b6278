import MiddleEnd.Proofs.Meets
import MiddleEnd.Proofs.Tree.Parts
import MiddleEnd.Scope.Resolve

/-! Resolved programs are scoped: a variable means a binder around it, and an annotation mentions
aliases that exist. Binders are numbered in the order of the walk over the program. -/

namespace MiddleEnd

open List

variable {fine : String → Prop}

abbrev Term := Expr Symbol Reference Annotation Span

def Annotation.Within (count : Nat) (hint : Annotation) : Prop :=
  ∀ index, .synonym index ∈ hint.typeNames → index < count

inductive Scoped (fine : String → Prop) (count : Nat) :
    List Symbol → Expr Symbol Reference Annotation Span → Prop where
  | node {scope : List Symbol} {expr : Expr Symbol Reference Annotation Span}
      (ref : ∀ ref, expr.ref? = some ref →
        match ref.target with
        | .bound symbol => symbol ∈ scope
        | .external name => fine name)
      (binds : ∀ symbol ∈ expr.binds, fine symbol.display)
      (hints : ∀ hint ∈ expr.hints, hint.Within count)
      (parts : ∀ part ∈ expr.parts, Scoped fine count (part.1 ++ scope) part.2) :
      Scoped fine count scope expr

namespace Scoped

variable {count : Nat} {scope : List Symbol} {expr : Term}

section

variable (fits : Scoped fine count scope expr)
include fits

theorem bound {ref : Reference} {symbol : Symbol}
    (here : expr.ref? = some ref) (target : ref.target = .bound symbol) : symbol ∈ scope := by
  cases fits with
  | node means => simpa [target] using means ref here

theorem binds : ∀ symbol ∈ expr.binds, fine symbol.display := by
  cases fits with
  | node _ binds => exact binds

theorem hints : ∀ hint ∈ expr.hints, hint.Within count := by
  cases fits with
  | node _ _ hints => exact hints

theorem part (names : List Symbol)
    {inner : Term} (mem : (names, inner) ∈ expr.parts) :
    Scoped fine count (names ++ scope) inner := by
  cases fits with
  | node _ _ _ parts => exact parts _ mem

theorem inner {inner : Term}
    (mem : ([], inner) ∈ expr.parts := by simp [Expr.parts]) : Scoped fine count scope inner :=
  fits.part [] mem

theorem names : ∀ symbol ∈ expr.names, fine symbol.display := by
  induction fits with
  | @node scope expr _ binds _ _ ih =>
    intro symbol mem
    rcases mem_append.mp (expr.names_perm.mem_iff.mp mem) with own | inside
    · exact binds symbol own
    · obtain ⟨part, there, inside⟩ := mem_flatMap.mp inside
      exact ih part there symbol inside

end

end Scoped

inductive Named (fine : String → Prop) : Expr Ident Mention TypeExpr Span → Prop where
  | node {expr : Expr Ident Mention TypeExpr Span}
      (ref : ∀ mention, expr.ref? = some mention → fine mention.ident.name)
      (binds : ∀ ident ∈ expr.binds, fine ident.name)
      (parts : ∀ part ∈ expr.parts, Named fine part.2) : Named fine expr

namespace Named

variable {expr : Expr Ident Mention TypeExpr Span}

theorem of_names (names : ∀ ident ∈ expr.names, fine ident.name)
    (refs : ∀ mention ∈ expr.refs, fine mention.ident.name) : Named fine expr := by
  induction expr using Expr.part_induction with
  | step expr ih =>
    refine .node (fun mention here => refs mention ?_) (fun ident mem => names ident ?_)
      fun part mem => ih part mem (fun ident there => names ident ?_)
        (fun mention there => refs mention ?_)
    · rw [Expr.refs_eq, here]
      exact mem_append_left _ (.head _)
    · exact expr.names_perm.mem_iff.mpr (mem_append_left _ mem)
    · exact expr.names_perm.mem_iff.mpr
        (mem_append_right _ (mem_flatMap.mpr ⟨part, mem, there⟩))
    · rw [Expr.refs_eq]
      exact mem_append_right _ (mem_flatMap.mpr ⟨part, mem, there⟩)

theorem ref {mention : Mention} (named : Named fine expr) (here : expr.ref? = some mention) :
    fine mention.ident.name := by
  cases named with
  | node ref => exact ref mention here

theorem binds (named : Named fine expr) : ∀ ident ∈ expr.binds, fine ident.name := by
  cases named with
  | node _ binds => exact binds

theorem part (named : Named fine expr) {inner : Expr Ident Mention TypeExpr Span}
    (inside : inner ∈ expr.parts.map Prod.snd := by simp [Expr.parts]) : Named fine inner := by
  obtain ⟨part, mem, rfl⟩ := mem_map.mp inside
  cases named with
  | node _ _ parts => exact parts part mem

end Named

theorem Annotation.typeNamesOf_eq (hints : List Annotation) :
    typeNamesOf hints = hints.flatMap typeNames := by
  induction hints with
  | nil => rfl
  | cons _ _ ih => rw [typeNamesOf, ih, flatMap_cons]

mutual
theorem TypeExpr.within_resolve {aliases : List String} {type : TypeExpr} {hint : Annotation}
    (resolved : type.resolve aliases = .ok hint) : hint.Within aliases.length := by
  intro index mem
  cases type with
  | hole _ =>
    cases resolved
    cases mem
  | named _ _ =>
    unfold TypeExpr.resolve at resolved
    split at resolved
    · cases resolved
      simp [ Annotation.typeNames] at mem
    · next found =>
      cases resolved
      obtain rfl : index = _ := by simpa [ Annotation.typeNames] using mem
      exact (idxOf?_eq_some_iff.mp found).1
    · cases resolved
  | applied _ _ _ =>
    unfold TypeExpr.resolve at resolved
    split at resolved
    · next con arg _ =>
      obtain ⟨inner, inner_resolved, ended⟩ := bind_eq_ok.mp resolved
      cases ended
      exact arg.within_resolve inner_resolved index (by simpa [ Annotation.typeNames] using mem)
    · cases resolved
  | tuple _ _ =>
    rw [TypeExpr.resolve] at resolved
    obtain ⟨inner, inner_resolved, ended⟩ := bind_eq_ok.mp resolved
    cases ended
    rw [ Annotation.typeNames, Annotation.typeNamesOf_eq, mem_flatMap] at mem
    obtain ⟨hint, there, mem⟩ := mem
    exact TypeExpr.within_resolveAll inner_resolved hint there index mem
  | function _ _ result =>
    rw [TypeExpr.resolve] at resolved
    obtain ⟨_, params_resolved, resolved⟩ := bind_eq_ok.mp resolved
    obtain ⟨_, result_resolved, ended⟩ := bind_eq_ok.mp resolved
    cases ended
    rw [ Annotation.typeNames, Annotation.typeNamesOf_eq, mem_append, mem_flatMap] at mem
    obtain ⟨hint, there, mem⟩ | mem := mem
    · exact TypeExpr.within_resolveAll params_resolved hint there index mem
    · exact result.within_resolve result_resolved index mem
theorem TypeExpr.within_resolveAll {aliases : List String} {types : List TypeExpr}
    {hints : List Annotation} (resolved : TypeExpr.resolveAll aliases types = .ok hints) :
    ∀ hint ∈ hints, hint.Within aliases.length := by
  cases types with
  | nil =>
    cases resolved
    exact fun _ mem => nomatch mem
  | cons type _ =>
    rw [TypeExpr.resolveAll] at resolved
    obtain ⟨_, first_resolved, resolved⟩ := bind_eq_ok.mp resolved
    obtain ⟨_, rest_resolved, ended⟩ := bind_eq_ok.mp resolved
    cases ended
    intro hint mem
    rcases mem_cons.mp mem with rfl | mem
    · exact type.within_resolve first_resolved
    · exact TypeExpr.within_resolveAll rest_resolved hint mem
end

end MiddleEnd
