import MiddleEnd.Proofs.Typing.Placeholders

/-! Which variables of a typed program have a record of an instantiation, and what the records say. Inside
its own definition a binder is known at one type, and after it by its type scheme. -/

namespace MiddleEnd

open List

variable {names outer : List Bound} {seen : List Nat} {expr : TypedExpr} {ctx : Context}
  {state : Inference} {fine : String → Prop} {bound : Bound} {type : Ty} {use : Use} {site : Site}
  {symbol : Symbol}

/-! ### Binders in scope -/

structure Expr.Fresh (names : List Bound) (seen : List Nat) (expr : TypedExpr) : Prop where
  subset : ∀ bound ∈ expr.names, bound ∈ names
  unseen : ∀ bound ∈ expr.names, bound.symbol.number ∉ seen
  distinct : (expr.names.map fun bound => bound.symbol.number).Nodup

namespace Expr.Fresh

section

variable (fresh : expr.Fresh names seen)
include fresh

theorem own (mem : bound ∈ expr.binds) : bound ∈ names ∧ bound.symbol.number ∉ seen := by
  have inside := expr.names_perm.mem_iff.mpr (mem_append_left _ mem)
  exact ⟨fresh.subset bound inside, fresh.unseen bound inside⟩

theorem split :
    ((expr.binds ++ expr.parts.flatMap fun part => part.2.names).map fun bound => bound.symbol.number).Nodup :=
  (expr.names_perm.map _).nodup_iff.mp fresh.distinct

theorem binds : (expr.binds.map fun bound => bound.symbol.number).Nodup := by
  have split := fresh.split
  rw [map_append] at split
  exact (nodup_append.mp split).1

theorem part (binders : List Bound) {inner : TypedExpr}
    (inside : (binders, inner) ∈ expr.parts := by simp [Expr.parts]) :
    inner.Fresh names (expr.binds.map (fun bound => bound.symbol.number) ++ seen) := by
  have split := fresh.split
  rw [map_append, nodup_append] at split
  obtain ⟨-, distinct, apart⟩ := split
  have below {bound : Bound} (mem : bound ∈ inner.names) :
      bound ∈ expr.parts.flatMap fun part => part.2.names := mem_flatMap.mpr ⟨_, inside, mem⟩
  have within {bound : Bound} (mem : bound ∈ inner.names) : bound ∈ expr.names :=
    expr.names_perm.mem_iff.mpr (mem_append_right _ (below mem))
  refine ⟨fun bound mem => fresh.subset bound (within mem), fun bound mem before => ?_, ?_⟩
  · rcases mem_append.mp before with own | before
    · exact apart _ own _ (mem_map_of_mem (below mem)) rfl
    · exact fresh.unseen bound (within mem) before
  · rw [map_flatMap] at distinct
    exact (nodup_flatMap.mp distinct).1 _ inside

end

end Expr.Fresh

structure Context.Tells (names outer : List Bound) (seen : List Nat) (ctx : Context) : Prop where
  around : ∀ bound ∈ outer, bound.symbol.number ∈ seen
  before {n : Nat} {type : Ty} (found : ctx.locals.lookup n = some type) : n ∈ seen
  known {n : Nat} {type : Ty} (found : ctx.locals.lookup n = some type) :
    (∃ bound ∈ outer, bound.symbol.number = n) ∧ type.generics = [] ∨
      (∀ bound ∈ outer, bound.symbol.number ≠ n) ∧
        ∃ bound ∈ names, bound.symbol.number = n ∧ bound.type = type

namespace Context.Tells

section

variable (tells : ctx.Tells names outer seen)
include tells

theorem subset {more : List Nat} (within : ∀ n ∈ seen, n ∈ more) : ctx.Tells names outer more :=
  ⟨fun bound mem => within _ (tells.around bound mem), fun found => within _ (tells.before found),
    tells.known⟩

theorem append (more : List Nat) : ctx.Tells names outer (more ++ seen) :=
  tells.subset fun _ => mem_append_right more

theorem inside {binders : List Bound}
    (unseen : ∀ bound ∈ binders, bound.symbol.number ∉ seen) :
    ctx.Tells names (binders ++ outer) (binders.map (fun bound => bound.symbol.number) ++ seen) where
  around bound mem := by
    rcases mem_append.mp mem with new | mem
    · exact mem_append_left _ (mem_map_of_mem new)
    · exact mem_append_right _ (tells.around bound mem)
  before found := mem_append_right _ (tells.before found)
  known {n type} found := by
    rcases tells.known found with ⟨⟨bound, mem, same⟩, plain⟩ | ⟨apart, there⟩
    · exact .inl ⟨⟨bound, mem_append_right _ mem, same⟩, plain⟩
    · refine .inr ⟨fun bound mem => ?_, there⟩
      rcases mem_append.mp mem with new | mem
      · exact fun same => unseen bound new (same ▸ tells.before found)
      · exact apart bound mem

theorem bind (mem : bound ∈ names)
    (unseen : bound.symbol.number ∉ seen) :
    (ctx.bind bound.symbol bound.type).Tells names outer (bound.symbol.number :: seen) where
  around other there := .tail _ (tells.around other there)
  before {n type} found := by
    by_cases same : n = bound.symbol.number
    · exact same ▸ mem_cons_self
    · rw [Context.bind, List.lookup_cons, beq_eq_false_iff_ne.mpr same] at found
      exact .tail _ (tells.before found)
  known {n type} found := by
    by_cases same : n = bound.symbol.number
    · subst same
      rw [Context.bind, List.lookup_cons, beq_self_eq_true] at found
      exact .inr ⟨fun other there same => unseen (same ▸ tells.around other there),
        bound, mem, rfl, Option.some.inj found⟩
    · rw [Context.bind, List.lookup_cons, beq_eq_false_iff_ne.mpr same] at found
      exact tells.known found

theorem bindAll {binders : List (Binder Bound Annotation)}
    (members : ∀ binder ∈ binders, binder.name ∈ names)
    (unseen : ∀ binder ∈ binders, binder.name.symbol.number ∉ seen)
    (distinct : (binders.map fun binder => binder.name.symbol.number).Nodup) :
    (ctx.bindAll binders).Tells names outer
      (binders.map (fun binder => binder.name.symbol.number) ++ seen) := by
  induction binders generalizing ctx seen with
  | nil => exact tells
  | cons binder _ ih =>
    rw [map_cons, nodup_cons] at distinct
    have first := tells.bind (members binder (.head _)) (unseen binder (.head _))
    refine (ih first (fun other there => members other (.tail _ there)) (fun other there seen => ?_)
      distinct.2).subset fun n there => ?_
    · rcases mem_cons.mp seen with same | seen
      · exact distinct.1 (same ▸ mem_map_of_mem there)
      · exact unseen other (.tail _ there) seen
    · rcases mem_append.mp there with there | there
      · exact mem_append_left _ (.tail _ there)
      · rcases mem_cons.mp there with rfl | there
        · exact mem_append_left _ (.head _)
        · exact mem_append_right _ there

theorem bindOwn (mem : bound ∈ outer)
    (plain : type.generics = []) : (ctx.bind bound.symbol type).Tells names outer seen where
  around := tells.around
  before {n found_type} found := by
    by_cases same : n = bound.symbol.number
    · exact same ▸ tells.around bound mem
    · rw [Context.bind, List.lookup_cons, beq_eq_false_iff_ne.mpr same] at found
      exact tells.before found
  known {n found_type} found := by
    by_cases same : n = bound.symbol.number
    · subst same
      rw [Context.bind, List.lookup_cons, beq_self_eq_true] at found
      exact .inl ⟨⟨bound, mem, rfl⟩, Option.some.inj found ▸ plain⟩
    · rw [Context.bind, List.lookup_cons, beq_eq_false_iff_ne.mpr same] at found
      exact tells.known found

theorem function {name : Bound}
    {params : List (Binder Bound Annotation)} (own : name.symbol.number ∉ seen)
    (members : ∀ param ∈ params, param.name ∈ names)
    (unseen : ∀ param ∈ params, param.name.symbol.number ∉ seen)
    (distinct : ((name :: params.map Binder.name).map fun bound => bound.symbol.number).Nodup)
    (plain : type.generics = []) :
    ((ctx.bindAll params).bind name.symbol type).Tells names ([name] ++ outer)
      ((name :: params.map Binder.name).map (fun bound => bound.symbol.number) ++ seen) := by
  rw [map_cons, List.map_map, nodup_cons] at distinct
  have within : ctx.Tells names ([name] ++ outer) (name.symbol.number :: seen) :=
    tells.inside (by simpa using own)
  have apart : ∀ param ∈ params, param.name.symbol.number ∉ name.symbol.number :: seen := by
    intro param there before
    rcases mem_cons.mp before with same | before
    · exact distinct.1 (same ▸ mem_map_of_mem (f := (fun bound => bound.symbol.number) ∘ Binder.name) there)
    · exact unseen param there before
  refine ((within.bindAll members apart distinct.2).bindOwn (.head _) plain).subset fun n there => ?_
  simp only [map_cons, List.map_map, cons_append, mem_cons, mem_append] at there ⊢
  exact or_left_comm.mp there

end

end Context.Tells

/-! ### Where records come from -/

structure Use.Traced (names outer : List Bound) (use : Use) (type : Ty) : Prop where
  made : ∀ made ∈ use.instantiation, made.Fits ∧ made.type = type ∧
    (made.scheme.generics = [] ∨ ∃ symbol, use.target = .bound symbol ∧
      (∀ bound ∈ outer, bound.symbol.number ≠ symbol.number) ∧
        ∃ bound ∈ names, bound.symbol.number = symbol.number ∧ bound.type = made.scheme)
  whole : use.instantiation = none → ∀ symbol, use.target = .bound symbol →
    (∃ bound ∈ outer, bound.symbol.number = symbol.number) ∨
      ∃ bound ∈ names, bound.symbol.number = symbol.number ∧ bound.type.generics = []

theorem Use.Traced.of_mem_iff {other : List Bound} (traced : use.Traced names outer type)
    (same : ∀ bound, bound ∈ outer ↔ bound ∈ other) : use.Traced names other type := by
  obtain ⟨made, whole⟩ := traced
  simp only [same] at made whole
  exact ⟨made, whole⟩

def Expr.Traced (names outer : List Bound) (expr : TypedExpr) : Prop :=
  ∀ site ∈ expr.sites, ∀ use ∈ site.use, use.Traced names (site.around ++ outer) site.type

theorem Expr.use_of_own (own : site ∈ expr.ownSites) : site.use = expr.ref? ∨ site.use = .none := by
  rcases mem_cons.mp own with rfl | own
  · exact .inl rfl
  · right
    cases expr with
    | letRec =>
      obtain ⟨_, -, rfl⟩ := mem_map.mp own
      rfl
    | matchOption =>
      cases mem_singleton.mp own
      rfl
    | _ => cases own

theorem Expr.Traced.of_definitions (own : expr.ref? = .none)
    (parts : ∀ part ∈ expr.definitions, part.2.Traced names (part.1 ++ outer)) :
    expr.Traced names outer := by
  intro site mem use here
  rcases Expr.mem_sites.mp mem with there | ⟨part, inside, there⟩
  · have unused : site.use = .none := (Expr.use_of_own there).elim (·.trans own) id
    rw [unused] at here
    cases here
  · obtain ⟨inner, within, rfl⟩ := mem_map.mp there
    refine (parts part inside inner within use here).of_mem_iff fun _ => ?_
    simp only [Site.inside, mem_append]
    tauto

def Inference.PlainExternals (state : Inference) : Prop :=
  ∀ name external, state.externals.find? name = some external → external.type.generics = []

theorem Inference.PlainExternals.before {middle : Inference} (plain : state.PlainExternals)
    (steps : middle.Extends state) : middle.PlainExternals :=
  fun name external found => plain name external (steps.external found)

section

theorem Uses.traced (uses : Uses state ctx use type) (plain : state.PlainExternals)
    (tells : ctx.Tells names outer seen) : use.Traced names outer type := by
  cases uses with
  | mono declares unquantified taken _ =>
    refine ⟨fun made there => (by rw [taken] at there; cases there), fun _ symbol target => ?_⟩
    rw [target] at declares
    rcases tells.known declares with ⟨inside, -⟩ | ⟨-, bound, mem, numbered, rfl⟩
    · exact .inl inside
    · exact .inr ⟨bound, mem, numbered, unquantified⟩
  | @poly made declares taken type_eq fits =>
    refine ⟨fun _ there => ?_, fun without => (by rw [taken] at without; cases without)⟩
    rw [taken] at there
    cases there
    refine ⟨fits, type_eq, ?_⟩
    cases target : use.target with
    | bound symbol =>
      rw [target] at declares
      rcases tells.known declares with ⟨-, unquantified⟩ | ⟨apart, there⟩
      · exact .inl unquantified
      · exact .inr ⟨symbol, rfl, apart, there⟩
    | external name =>
      rw [target] at declares
      obtain ⟨external, found, same⟩ := declares
      exact .inl (same ▸ plain name external found)

theorem Derives.traced (derives : Derives state ctx expr) (plain : state.PlainExternals)
    (fresh : expr.Fresh names seen) (tells : ctx.Tells names outer seen) :
    expr.Traced names outer := by
  induction derives generalizing outer seen with
  | lit | none => exact .of_definitions rfl (forall_mem_nil _)
  | var uses =>
    intro _ mem _ here
    cases mem_singleton.mp mem
    cases here
    exact uses.traced plain tells
  | unary _ _ ih | arrayLen _ _ ih | some _ ih | typed _ _ ih =>
    have inner := ih plain (fresh.part []) tells
    exact .of_definitions rfl (by simpa [Expr.definitions, Expr.parts] using inner)
  | binary _ _ _ _ _ first_ih second_ih | compare _ _ _ _ first_ih second_ih
  | arrayMake _ _ _ first_ih second_ih | arrayGet _ _ _ _ first_ih second_ih =>
    have first := first_ih plain (fresh.part []) tells
    have second := second_ih plain (fresh.part []) tells
    exact .of_definitions rfl (by simpa [Expr.definitions, Expr.parts] using ⟨first, second⟩)
  | cond _ _ _ _ _ first_ih second_ih third_ih | arraySet _ _ _ _ _ _ first_ih second_ih third_ih =>
    have first := first_ih plain (fresh.part []) tells
    have second := second_ih plain (fresh.part []) tells
    have third := third_ih plain (fresh.part []) tells
    exact .of_definitions rfl (by simpa [Expr.definitions, Expr.parts] using ⟨first, second, third⟩)
  | tuple _ ih | arrayLit _ _ ih =>
    refine .of_definitions rfl fun part inside => ?_
    obtain ⟨⟨_, element⟩, there, rfl⟩ := mem_map.mp inside
    obtain ⟨element, there, same⟩ := mem_map.mp there
    cases same
    exact ih element there plain (fresh.part [] (by simpa [Expr.parts] using there)) tells
  | apply _ _ _ callee_ih args_ih =>
    have callee := callee_ih plain (fresh.part []) tells
    have args := fun arg there => args_ih arg there plain
      (fresh.part [] (by simp [Expr.parts, there])) tells
    exact .of_definitions rfl (by simpa [Expr.definitions, Expr.parts] using ⟨callee, args⟩)
  | @letIn middle state ctx span binder bound body _ _ generalized _ bound_ih body_ih =>
    have own : binder.name ∈ names ∧ binder.name.symbol.number ∉ seen := fresh.own (by simp [Expr.binds])
    have defined := bound_ih (plain.before generalized.steps)
      (fresh.part []) (tells.inside (by simpa [Expr.binds] using own.2))
    have body := body_ih plain (fresh.part [binder.name]) (tells.bind own.1 own.2)
    exact .of_definitions rfl (by simpa [Expr.definitions] using ⟨defined, body⟩)
  | @letRec middle state ctx span name params result body rest returned unquantified _ _ _ _ generalized _
      body_ih rest_ih =>
    have own : name ∈ names ∧ name.symbol.number ∉ seen := fresh.own (by simp [Expr.binds])
    have inputs : ∀ param ∈ params, param.name ∈ names ∧ param.name.symbol.number ∉ seen :=
      fun param there => fresh.own (.tail _ (mem_map_of_mem there))
    have defined := body_ih (plain.before generalized.steps)
      (fresh.part (params.map Binder.name ++ [name]))
      (tells.function own.2 (fun param there => (inputs param there).1) (fun param there => (inputs param there).2)
        fresh.binds unquantified)
    have rest := rest_ih plain (fresh.part [name]) ((tells.bind own.1 own.2).subset fun n there => by
        rcases mem_cons.mp there with rfl | there
        · exact .head _
        · exact mem_append_right _ there)
    exact .of_definitions rfl (by simpa [Expr.definitions] using ⟨defined, rest⟩)
  | @letTuple middle state ctx span binders types bound body _ _ steps _ _ bound_ih body_ih =>
    have own : ∀ binder ∈ binders, binder.name ∈ names ∧ binder.name.symbol.number ∉ seen :=
      fun binder there => fresh.own (mem_map_of_mem there)
    have distinct := fresh.binds
    rw [Expr.binds, List.map_map] at distinct
    have defined := bound_ih (plain.before steps)
      (fresh.part []) (tells.inside (forall_mem_map.mpr fun binder there => (own binder there).2))
    have known := tells.bindAll (fun binder there => (own binder there).1) (fun binder there => (own binder there).2)
      distinct
    have body := body_ih plain (fresh.part (binders.map Binder.name))
      (known.subset fun n there => by simpa [Expr.binds] using there)
    exact .of_definitions rfl (by simpa [Expr.definitions] using ⟨defined, body⟩)
  | @matchOption state ctx span binder target someArm noneArm _ _ _ _ _ _ _ target_ih some_ih none_ih =>
    have own : binder.name ∈ names ∧ binder.name.symbol.number ∉ seen := fresh.own (by simp [Expr.binds])
    have target := target_ih plain (fresh.part []) (tells.append _)
    have taken := some_ih plain (fresh.part [binder.name]) (tells.bind own.1 own.2)
    have other := none_ih plain (fresh.part []) (tells.append _)
    exact .of_definitions rfl (by simpa [Expr.definitions, Expr.parts] using ⟨target, taken, other⟩)

end

/-! ### Records -/

theorem Scoped.target {count : Nat} {scope : List Symbol} {expr : Term}
    (fits : Scoped fine count scope expr) {ref : Reference} (mem : ref ∈ expr.refs)
    (target : ref.target = .bound symbol) : symbol ∈ scope ∨ symbol ∈ expr.names := by
  induction fits with
  | @node scope expr means _ _ _ ih =>
    rw [expr.names_perm.mem_iff, mem_append]
    rw [Expr.refs_eq, mem_append, Option.mem_toList] at mem
    rcases mem with own | inside
    · exact .inl (by simpa [target] using means ref own)
    · obtain ⟨part, there, inside⟩ := mem_flatMap.mp inside
      rcases ih part there inside with around | below
      · rcases mem_append.mp around with bound | around
        · exact .inr (.inl (Expr.mem_binds_of_part there bound))
        · exact .inl around
      · exact .inr (.inr (mem_flatMap.mpr ⟨part, there, below⟩))

theorem Expr.mem_refs_of_site (mem : site ∈ expr.sites) (here : use ∈ site.use) : use ∈ expr.refs := by
  induction expr using definition_induction generalizing site with
  | step _ ih =>
    rw [refs_eq, mem_append, Option.mem_toList]
    rcases mem_sites.mp mem with own | ⟨part, inside, there⟩
    · rcases use_of_own own with same | unused
      · exact .inl (same ▸ here)
      · rw [unused] at here
        cases here
    · obtain ⟨_, within, rfl⟩ := mem_map.mp there
      have listed := mem_map_of_mem (f := Prod.snd) inside
      rw [definitions_parts] at listed
      obtain ⟨other, listed, same⟩ := mem_map.mp listed
      exact .inr (mem_flatMap.mpr ⟨other, listed, same ▸ ih part inside within here⟩)

namespace Resolved.Accepted

variable {program : Resolved} {settings : Settings} {typed : Typed} {inferred : TypedExpr}

section

variable (accepted : program.Accepted settings typed inferred state)
include accepted

theorem names_perm : program.body.names.Perm (inferred.names.map Bound.symbol) :=
  accepted.erased ▸ Expr.names_map_perm _ _ _ _ inferred

theorem distinct (placed : program.WellScoped fine) :
    (inferred.names.map fun bound => bound.symbol.number).Nodup := by
  have distinct := (accepted.names_perm.map Symbol.number).nodup_iff.mp placed.distinct
  rwa [List.map_map] at distinct

theorem traced (placed : program.WellScoped fine) : inferred.Traced inferred.names [] := by
  obtain ⟨_, derives⟩ := accepted.derives
  have plain : state.PlainExternals := fun _ _ found =>
    (Resolved.confines accepted.run).plain.externals _ (NameMap.mem_of_find? found)
  have fresh : inferred.Fresh inferred.names [] :=
    ⟨fun _ => id, fun _ _ => not_mem_nil, accepted.distinct placed⟩
  exact derives.traced plain fresh ⟨forall_mem_nil _, nofun, nofun⟩

theorem exists_target (placed : program.WellScoped fine) (mem : site ∈ inferred.sites)
    (here : use ∈ site.use)
    (target : use.target = .bound symbol) :
    ∃ bound ∈ inferred.names, bound.symbol = symbol ∧
      ∀ other ∈ inferred.names, other.symbol.number = symbol.number → other = bound := by
  have listed : (⟨use.target, use.order⟩ : Reference) ∈ program.body.refs := by
    rw [← accepted.erased, Expr.erase, Expr.refs_map]
    exact mem_map_of_mem (Expr.mem_refs_of_site mem here)
  have named := (placed.body.target listed target).resolve_left not_mem_nil
  obtain ⟨bound, there, rfl⟩ := mem_map.mp (accepted.names_perm.mem_iff.mp named)
  exact ⟨bound, there, rfl, fun other mem same =>
    inj_on_of_nodup_map (accepted.distinct placed) mem there same⟩

theorem mem_frozenBy_iff (mem : bound ∈ inferred.names)
    (only : ∀ other ∈ inferred.names, other.symbol.number = bound.symbol.number → other = bound)
    {n : Nat} :
    n ∈ program.frozenBy settings bound.symbol ↔ n ∈ bound.type.generics := by
  refine ⟨fun frozen => ?_, accepted.mem_frozenBy mem⟩
  rw [accepted.frozenBy_eq] at frozen
  obtain ⟨other, there, quantified⟩ := mem_flatMap.mp frozen
  rw [mem_filter, beq_iff_eq] at there
  exact only other there.1 there.2 ▸ quantified

theorem find?_table (placed : program.WellScoped fine) (mem : bound ∈ inferred.names) :
    typed.table.find? bound.symbol.name = some ((state.settle inferred).closed bound.type) := by
  have erased : typed.body.erase = program.body := by
    rw [accepted.body, Expr.erase_close, accepted.erased]
  refine Typed.find?_table (erased ▸ placed.distinct) (bound.close (state.settle inferred)) ?_
  rw [accepted.body, Expr.close, (Expr.names_map_perm _ _ _ _ inferred).mem_iff]
  exact mem_map_of_mem mem

theorem exists_of_record (placed : program.WellScoped fine) (mem : site ∈ inferred.sites)
    (here : use ∈ site.use)
    {made : Instantiation} (taken : use.instantiation = some made) :
    made.Fits ∧ made.type = site.type ∧ made.scheme.generics ≠ [] ∧
      ∃ bound ∈ inferred.names, use.target = .bound bound.symbol ∧ bound.type = made.scheme ∧
        (∀ other ∈ inferred.names, other.symbol.number = bound.symbol.number → other = bound) ∧
        ∀ other ∈ site.around, other.symbol.number ≠ bound.symbol.number := by
  have record : site.record = some made := by rw [Site.record, here, Option.bind_some, taken]
  obtain ⟨quantified, -⟩ := ((Resolved.confines accepted.run).kept site mem).record made record
  obtain ⟨fits, type_eq, source⟩ := (accepted.traced placed site mem use here).made made taken
  obtain ⟨symbol, target, outside, other, there, numbered, scheme⟩ := source.resolve_left quantified
  obtain ⟨bound, named, rfl, only⟩ := accepted.exists_target placed mem here target
  rw [only other there numbered] at scheme
  rw [append_nil] at outside
  exact ⟨fits, type_eq, quantified, bound, named, target, scheme, only, outside⟩

theorem isSome_record_iff (placed : program.WellScoped fine) (mem : site ∈ inferred.sites)
    (here : use ∈ site.use) :
    use.instantiation.isSome = true ↔ ∃ symbol, use.target = .bound symbol ∧
      program.frozenBy settings symbol ≠ [] ∧ ∀ bound ∈ site.around, bound.symbol.number ≠ symbol.number := by
  refine ⟨fun present => ?_, fun ⟨symbol, target, frozen, outside⟩ => ?_⟩
  · obtain ⟨_, taken⟩ := Option.isSome_iff_exists.mp present
    obtain ⟨-, -, quantified, bound, named, target, scheme, -, outside⟩ :=
      accepted.exists_of_record placed mem here taken
    obtain ⟨n, there⟩ := exists_mem_of_ne_nil _ quantified
    exact ⟨bound.symbol, target, ne_nil_of_mem (accepted.mem_frozenBy named (scheme ▸ there)), outside⟩
  · rw [Option.isSome_iff_ne_none]
    intro absent
    have whole := (accepted.traced placed site mem use here).whole absent symbol target
    rw [append_nil] at whole
    obtain ⟨bound, named, rfl, only⟩ := accepted.exists_target placed mem here target
    rcases whole with ⟨other, around, numbered⟩ | ⟨other, there, numbered, plain⟩
    · exact outside other around numbered
    · rw [only other there numbered] at plain
      obtain ⟨n, there⟩ := exists_mem_of_ne_nil _ frozen
      rw [accepted.mem_frozenBy_iff named only, plain] at there
      cases there

end

end Resolved.Accepted

/-- A variable has a record of an instantiation if it means a binder whose binding has made placeholders and
stands outside that binding. The record has the type scheme of the table, replaces the placeholders that the
binding has made and has the type of the variable. This is the scheme with all of them replaced at once, if
none of them was frozen too early. -/
theorem Surface.instantiation_records {program : Surface} {resolved : Resolved} {typed : Typed}
    {settings : Settings} (resolves : program.resolve = .ok resolved) (checks : resolved.check settings = .ok typed) :
    ∀ site ∈ typed.body.sites, ∀ use ∈ site.use,
      (use.instantiation.isSome = true ↔ ∃ symbol, use.target = .bound symbol ∧
        resolved.frozenBy settings symbol ≠ [] ∧ ∀ bound ∈ site.around, bound.symbol.number ≠ symbol.number) ∧
      ∀ made ∈ use.instantiation, ∃ symbol, use.target = .bound symbol ∧
        typed.table.find? symbol.name = some made.scheme ∧
        (∀ n, n ∈ made.mapping.map Prod.fst ↔
          n ∈ resolved.frozenBy settings symbol ∧ n ∈ made.scheme.generics) ∧
        (made.mapping.map Prod.fst).Nodup ∧ made.type = site.type ∧
        ((∀ n ∈ made.mapping.map Prod.fst, ¬resolved.FrozenEarly settings n) →
          made.type = made.scheme.substGenerics fun n =>
            (made.mapping.lookup n).getD (.generic n)) := by
  have placed := wellScoped_of_resolve resolves
  obtain ⟨inferred, state, accepted⟩ := Resolved.exists_accepted placed checks
  intro site member use here
  rw [accepted.body] at member
  obtain ⟨inner, there, rfl⟩ := Expr.exists_of_mem_sites_close member
  obtain ⟨source, present, rfl⟩ := Option.map_eq_some_iff.mp here
  refine ⟨?_, fun final closed => ?_⟩
  · rw [Use.close, Option.isSome_map, accepted.isSome_record_iff placed there present]
    simp only [Site.close, List.forall_mem_map, Bound.close]
  · obtain ⟨made, taken, rfl⟩ := Option.map_eq_some_iff.mp closed
    obtain ⟨fits, type_eq, -, bound, binder, target, scheme, only, -⟩ :=
      accepted.exists_of_record placed there present taken
    have keys : (made.close (state.settle inferred)).mapping.map Prod.fst = made.mapping.map Prod.fst := by
      rw [Instantiation.close, List.map_map]
      rfl
    rw [keys]
    have listed := accepted.find?_table placed binder
    rw [scheme] at listed
    refine ⟨bound.symbol, target, listed, fun n => ?_, fits.distinct,
      congrArg (state.settle inferred).closed type_eq, fun settled => ?_⟩
    · rw [fits.keys, accepted.mem_frozenBy_iff binder only, scheme]
      refine ⟨fun quantified => ⟨quantified, ?_⟩, And.left⟩
      rw [Instantiation.close, Store.closed_eq_subst, Ty.mem_generics_subst]
      exact .inr ⟨n, quantified, List.mem_singleton_self n⟩
    · have confines := Resolved.confines accepted.run
      have record : inner.record = some made := by rw [Site.record, present, Option.bind_some, taken]
      have defaulted := state.defaulted_settle inferred
      refine fits.closed_type fun other inside n here quantified => ?_
      have kept := (((confines.kept inner there).record made record).2 n quantified).2
      have behind := kept.resolve_left (settled n ((fits.keys n).mpr quantified))
      rw [Store.mem_generics_closed, defaulted.generics (confines.plain.store.expand rfl), List.mem_nil_iff,
        or_false] at here
      exact (behind other inside).2 n (defaulted.mem_vars here) rfl

/-- Both uses of the function replace its two placeholders, and no other variable has a record. -/
theorem Surface.instantiation_records_swappedPairs : ∃ resolved typed, swappedPairs.resolve = .ok resolved ∧
    resolved.check {} = .ok typed ∧
    (typed.body.sites.filterMap Site.record).map (fun made => made.mapping.map Prod.snd) =
      [[.int, .bool], [.int, .bool]] ∧
    ∀ site ∈ typed.body.sites, ∀ use ∈ site.use,
      (use.instantiation.isSome = true ↔ ∃ symbol, use.target = .bound symbol ∧
        resolved.frozenBy {} symbol ≠ [] ∧ ∀ bound ∈ site.around, bound.symbol.number ≠ symbol.number) ∧
      ∀ made ∈ use.instantiation, made.type = site.type ∧
        made.type = made.scheme.substGenerics fun n =>
          (made.mapping.lookup n).getD (.generic n) := by
  obtain ⟨resolved, typed, resolves, checks, test⟩ :=
    exists_of_accepted swappedPairs {} fun resolved typed =>
      decide ((typed.body.sites.filterMap Site.record).map (fun made => made.mapping.map Prod.snd) =
        [[.int, .bool], [.int, .bool]]) &&
      decide (∀ moment ∈ resolved.record {}, moment.pending = false)
  rw [Bool.and_eq_true, decide_eq_true_eq, decide_eq_true_eq] at test
  refine ⟨resolved, typed, resolves, checks, test.1, fun site member use here => ?_⟩
  obtain ⟨complete, faithful⟩ := instantiation_records resolves checks site member use here
  refine ⟨complete, fun made taken => ?_⟩
  obtain ⟨_, -, -, -, -, type_eq, instance_eq⟩ := faithful made taken
  refine ⟨type_eq, instance_eq fun n _ ⟨moment, there, pending, _⟩ => ?_⟩
  rw [test.2 moment there] at pending
  cases pending

/-- `type t = _ option; let rec both x = ((x, (None : t)), x) in let (a, (b : t)) = both None in a` -/
def Surface.lateHolePair : Surface :=
  let name (text : String) : Ident := ⟨text, default, 0⟩
  let var (text : String) (order : Nat) : Expr Ident Mention TypeExpr Span :=
    .var default ⟨name text, order⟩
  { aliases := [⟨name "t", .applied default (name "option") [.hole default]⟩]
    body :=
      .letRec default (name "both") [⟨name "x", none⟩] none
        (.tuple default [.tuple default [var "x" 0, .typed default (.none default) (.named default (name "t"))],
          var "x" 1])
        (.letTuple default [⟨name "a", none⟩, ⟨name "b", some (.named default (name "t"))⟩]
          (.apply default (var "both" 2) [.none default]) (var "a" 3)) }

/-- The first part freezes a variable that the annotation of the second part then brings into the type of
the alias, and so a second time into the scheme. Only the first of the two is replaced in the record. -/
theorem Surface.lateHolePair_record_differs : ∃ resolved typed, lateHolePair.resolve = .ok resolved ∧
    resolved.check {} = .ok typed ∧ ∃ site ∈ typed.body.sites, ∃ made ∈ site.record,
      made.type ≠ made.scheme.substGenerics fun n => (made.mapping.lookup n).getD (.generic n) := by
  obtain ⟨resolved, typed, resolves, checks, test⟩ :=
    exists_of_accepted lateHolePair {} fun _ typed => decide (∃ made ∈ typed.body.sites.filterMap Site.record,
      made.type ≠ made.scheme.substGenerics fun n =>
        (made.mapping.lookup n).getD (.generic n))
  obtain ⟨made, member, differs⟩ := of_decide_eq_true test
  obtain ⟨site, there, record⟩ := List.mem_filterMap.mp member
  exact ⟨resolved, typed, resolves, checks, site, there, made, record, differs⟩

end MiddleEnd
