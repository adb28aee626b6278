import MiddleEnd.Proofs.Typing.Close

/-! The places of a typed program that have a type: its expressions, and the parameters and binders that
are known at one type only. Each place knows the bindings it is part of. -/

namespace MiddleEnd

open List

variable {store : Store} {expr final : TypedExpr} {bound : Bound}

structure Site where
  /-- The binders of the bindings in whose bound expression or function the place stands. -/
  around : List Bound := []
  type : Ty
  /-- The variable that stands at the place. -/
  use : Option Use := none

namespace Site

def inside (binders : List Bound) (site : Site) : Site := { site with around := binders ++ site.around }

def close (store : Store) (site : Site) : Site where
  around := site.around.map (Bound.close store)
  type := store.closed site.type
  use := site.use.map (Use.close store)

/-- The record of an instantiation at a place. -/
def record (site : Site) : Option Instantiation := site.use.bind Use.instantiation

@[simp] theorem inside_nil (site : Site) : site.inside [] = site := rfl

theorem close_inside (store : Store) (binders : List Bound) (site : Site) :
    (site.inside binders).close store = (site.close store).inside (binders.map (Bound.close store)) := by
  simp [inside, close]

end Site

def Note.site (note : Note) : Site := { type := note.type }

def Binder.site (binder : Binder Bound Annotation) : Site := { type := binder.name.type }

namespace Expr

mutual
/-- The places in an expression. -/
def sites : TypedExpr → List Site
  | lit here _ | none here => [here.site]
  | var here use => [{ here.site with use }]
  | unary here _ operand => here.site :: operand.sites
  | binary here _ lhs rhs => here.site :: (lhs.sites ++ rhs.sites)
  | cond here test yes no => here.site :: (test.sites ++ (yes.sites ++ no.sites))
  | letIn here binder bound body => here.site :: (bound.sites.map (.inside [binder.name]) ++ body.sites)
  | letRec here name params _ body rest =>
    here.site :: ((params.map Binder.site ++ body.sites).map (.inside [name]) ++ rest.sites)
  | letTuple here binders bound body =>
    here.site :: (bound.sites.map (.inside (binders.map Binder.name)) ++ body.sites)
  | apply here callee args => here.site :: (callee.sites ++ sitesOf args)
  | tuple here elements => here.site :: sitesOf elements
  | arrayMake here size element => here.site :: (size.sites ++ element.sites)
  | arrayLit here elements => here.site :: sitesOf elements
  | arrayLen here array => here.site :: array.sites
  | arrayGet here array index => here.site :: (array.sites ++ index.sites)
  | arraySet here array index value => here.site :: (array.sites ++ (index.sites ++ value.sites))
  | some here element => here.site :: element.sites
  | matchOption here target binder someArm noneArm =>
    here.site :: binder.site :: (target.sites ++ (someArm.sites ++ noneArm.sites))
  | typed here child _ => here.site :: child.sites
def sitesOf : List TypedExpr → List Site
  | [] => []
  | expr :: exprs => expr.sites ++ sitesOf exprs
end

@[simp] theorem sitesOf_eq (exprs : List TypedExpr) : sitesOf exprs = exprs.flatMap sites := by
  induction exprs with
  | nil => rfl
  | cons _ _ ih => rw [sitesOf, ih, flatMap_cons]

def ownSites (expr : TypedExpr) : List Site :=
  { expr.note.site with use := expr.ref? } ::
    match expr with
    | letRec _ name params _ _ _ => params.map fun param => param.site.inside [name]
    | matchOption _ _ binder _ _ => [binder.site]
    | _ => []

def definitions : TypedExpr → List (List Bound × TypedExpr)
  | letIn _ binder bound body => [([binder.name], bound), ([], body)]
  | letRec _ name _ _ body rest => [([name], body), ([], rest)]
  | letTuple _ binders bound body => [(binders.map Binder.name, bound), ([], body)]
  | expr => expr.parts.map fun part => ([], part.2)

theorem mem_sites {site : Site} :
    site ∈ expr.sites ↔ site ∈ expr.ownSites ∨
      ∃ part ∈ expr.definitions, site ∈ part.2.sites.map (.inside part.1) := by
  cases expr <;> simp [sites, ownSites, definitions, parts, note, ref?, Note.site, or_assoc]

theorem ownSites_close (store : Store) (expr : TypedExpr) :
    (expr.close store).ownSites = expr.ownSites.map (Site.close store) := by
  cases expr <;> simp [close, map, ownSites, ref?, note, Note.site, Note.close, Site.close, Binder.site,
    Site.inside, Bound.close]

theorem definitions_close (store : Store) (expr : TypedExpr) :
    (expr.close store).definitions =
      expr.definitions.map fun part => (part.1.map (Bound.close store), part.2.close store) := by
  cases expr <;> simp [close, map, definitions, parts, Function.comp_def]

theorem definitions_parts (expr : TypedExpr) :
    expr.definitions.map Prod.snd = expr.parts.map Prod.snd := by
  cases expr <;> simp [definitions, parts, Function.comp_def]

theorem mem_binds_of_definition {part : List Bound × TypedExpr} (inside : part ∈ expr.definitions)
    (mem : bound ∈ part.1) : bound ∈ expr.binds := by
  cases expr <;> simp [definitions, parts, binds] at inside ⊢ <;> grind

theorem definition_induction {motive : TypedExpr → Prop}
    (step : ∀ expr, (∀ part ∈ expr.definitions, motive part.2) → motive expr) (expr : TypedExpr) :
    motive expr := by
  induction expr using part_induction with
  | step expr ih =>
    refine step expr fun part mem => ?_
    have there := mem_map_of_mem (f := Prod.snd) mem
    rw [definitions_parts] at there
    obtain ⟨other, mem, same⟩ := mem_map.mp there
    exact same ▸ ih other mem

theorem exists_of_mem_sites_close {site : Site} (mem : site ∈ (expr.close store).sites) :
    ∃ inner ∈ expr.sites, site = inner.close store := by
  induction expr using definition_induction generalizing site with
  | step _ ih =>
    rw [mem_sites, ownSites_close, definitions_close] at mem
    rcases mem with own | ⟨part, inside, mem⟩
    · obtain ⟨inner, there, rfl⟩ := mem_map.mp own
      exact ⟨inner, mem_sites.mpr (.inl there), rfl⟩
    · obtain ⟨source, from_, rfl⟩ := mem_map.mp inside
      obtain ⟨_, there, rfl⟩ := mem_map.mp mem
      obtain ⟨inner, here, rfl⟩ := ih source from_ there
      exact ⟨inner.inside source.1, mem_sites.mpr (.inr ⟨source, from_, mem_map_of_mem here⟩),
        (inner.close_inside store source.1).symm⟩

theorem mem_names_of_around {site : Site} (mem : site ∈ expr.sites) (around : bound ∈ site.around) :
    bound ∈ expr.names := by
  induction expr using definition_induction generalizing site with
  | step expr ih =>
    rw [(names_perm expr).mem_iff, mem_append]
    rcases mem_sites.mp mem with own | ⟨part, inside, mem⟩
    · left
      cases expr <;> simp [ownSites, Note.site, Binder.site, Site.inside, binds] at own ⊢ <;> grind
    · obtain ⟨_, here, rfl⟩ := mem_map.mp mem
      rcases mem_append.mp around with around | around
      · exact .inl (mem_binds_of_definition inside around)
      · have there := mem_map_of_mem (f := Prod.snd) inside
        rw [definitions_parts] at there
        obtain ⟨other, there, same⟩ := mem_map.mp there
        exact .inr (mem_flatMap.mpr ⟨other, there, same ▸ ih part inside here around⟩)

end Expr

namespace Close

theorem closes_of_note {note final : Note} (run : Close.note store note = .ok final) :
    store.Closes note.type :=
  ((note_spec note).of_eq run).2

theorem closes_of_binder {binder final : Binder Bound Annotation} (run : Close.binder store binder = .ok final) :
    store.Closes binder.name.type := by
  obtain ⟨_, run, -⟩ := bind_eq_ok.mp run
  obtain ⟨type, run, -⟩ := bind_eq_ok.mp run
  exact ((type_spec _ _ _).of_eq run).2

theorem closes_of_binders {binders final : List (Binder Bound Annotation)}
    (run : Close.binders store binders = .ok final) :
    ∀ binder ∈ binders, store.Closes binder.name.type := by
  induction binders generalizing final with
  | nil => exact forall_mem_nil _
  | cons _ _ ih =>
    obtain ⟨_, first_run, run⟩ := bind_eq_ok.mp run
    obtain ⟨_, rest_run, -⟩ := bind_eq_ok.mp run
    exact forall_mem_cons.mpr ⟨closes_of_binder first_run, ih rest_run⟩

theorem exists_of_exprs {exprs final : List TypedExpr} (run : Close.exprs store exprs = .ok final) :
    ∀ expr ∈ exprs, ∃ final, Close.expr store expr = .ok final := by
  induction exprs generalizing final with
  | nil => exact forall_mem_nil _
  | cons _ _ ih =>
    obtain ⟨_, first_run, run⟩ := bind_eq_ok.mp run
    obtain ⟨_, rest_run, -⟩ := bind_eq_ok.mp run
    exact forall_mem_cons.mpr ⟨⟨_, first_run⟩, ih rest_run⟩

theorem expr_visits (run : Close.expr store expr = .ok final) :
    (∀ site ∈ expr.ownSites, store.Closes site.type) ∧
      ∀ part ∈ expr.definitions, ∃ final, Close.expr store part.2 = .ok final := by
  cases expr <;> simp only [Close.expr, bind_eq_ok] at run <;>
    simp [Expr.ownSites, Expr.definitions, Expr.parts, Expr.note, Note.site, Binder.site, Site.inside]
  all_goals grind [closes_of_note, closes_of_binder, closes_of_binders, exists_of_exprs]

theorem closes_of_expr (run : Close.expr store expr = .ok final) :
    ∀ site ∈ expr.sites, store.Closes site.type := by
  induction expr using Expr.definition_induction generalizing final with
  | step _ ih =>
    obtain ⟨own, parts⟩ := expr_visits run
    intro site mem
    rcases Expr.mem_sites.mp mem with mem | ⟨part, inside, mem⟩
    · exact own site mem
    · obtain ⟨inner, there, rfl⟩ := mem_map.mp mem
      obtain ⟨_, part_run⟩ := parts part inside
      exact ih part inside part_run inner there

end Close

end MiddleEnd
