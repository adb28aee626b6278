import MiddleEnd.Proofs.Scope.Scoped

/-! Resolution gives scoped programs whose binders have numbers of their own. -/

namespace MiddleEnd

open List

variable {scopes : Scopes} {scope : List Symbol} {aliases : List String} {fine : String → Prop}
  {before : List String} {written : List (Declaration TypeExpr)}
  {resolved : List (Declaration Annotation)} {program : Surface}

/-- Symbols whose numbers are distinct and lie between two counts. -/
structure Numbered (start : Nat) (symbols : List Symbol) (stop : Nat) : Prop where
  le : start ≤ stop
  bounds : ∀ symbol ∈ symbols, start ≤ symbol.number ∧ symbol.number < stop
  distinct : (symbols.map Symbol.number).Nodup

namespace Numbered

variable {start middle stop : Nat} {symbols symbols' : List Symbol}

theorem nil (start : Nat) : Numbered start [] start :=
  ⟨Nat.le_refl _, fun _ mem => (nomatch mem), nodup_nil⟩

theorem single (symbol : Symbol) : Numbered symbol.number [symbol] (symbol.number + 1) := by
  refine ⟨Nat.le_succ _, fun _ mem => ?_, by simp⟩
  obtain rfl := mem_singleton.mp mem
  exact ⟨Nat.le_refl _, Nat.lt_succ_self _⟩

theorem append (first : Numbered start symbols middle) (second : Numbered middle symbols' stop) :
    Numbered start (symbols ++ symbols') stop := by
  refine ⟨Nat.le_trans first.le second.le, fun symbol mem => ?_, ?_⟩
  · rcases mem_append.mp mem with mem | mem
    · have bounds := first.bounds symbol mem
      exact ⟨bounds.1, Nat.lt_of_lt_of_le bounds.2 second.le⟩
    · have bounds := second.bounds symbol mem
      exact ⟨Nat.le_trans first.le bounds.1, bounds.2⟩
  · rw [map_append, nodup_append]
    refine ⟨first.distinct, second.distinct, fun _ here _ there => ?_⟩
    obtain ⟨symbol, mem, rfl⟩ := mem_map.mp here
    obtain ⟨symbol', mem', rfl⟩ := mem_map.mp there
    have before := (first.bounds symbol mem).2
    have after := (second.bounds symbol' mem').1
    omega

theorem perm (numbered : Numbered start symbols stop) (perm : symbols'.Perm symbols) :
    Numbered start symbols' stop :=
  ⟨numbered.le, fun symbol mem => numbered.bounds symbol (perm.mem_iff.mp mem),
    (perm.map _).nodup_iff.mpr numbered.distinct⟩

end Numbered

def Scopes.Within (scopes : Scopes) (scope : List Symbol) : Prop :=
  ∀ frame ∈ scopes, ∀ entry ∈ frame, entry.2 ∈ scope

namespace Scopes.Within

section

variable (within : scopes.Within scope)
include within

theorem find? {name : String} {symbol : Symbol}
    (found : scopes.find? name = some symbol) : symbol ∈ scope := by
  obtain ⟨_, mem, found⟩ := exists_of_findSome?_eq_some found
  obtain ⟨_, _, rfl, -⟩ := lookup_eq_some_iff.mp found
  exact within _ mem (name, symbol) (mem_append_right _ (.head _))

theorem push : Scopes.Within ([] :: scopes) scope := by
  intro frame mem entry here
  rcases mem_cons.mp mem with rfl | mem
  · cases here
  · exact within frame mem entry here

theorem weaken (symbol : Symbol) : scopes.Within (symbol :: scope) :=
  fun frame mem entry here => .tail _ (within frame mem entry here)

theorem bind (name : String) (symbol : Symbol) :
    (scopes.bind name symbol).Within (symbol :: scope) := by
  intro frame mem entry here
  rcases mem_cons.mp mem with rfl | mem
  · rcases mem_cons.mp here with rfl | here
    · exact .head _
    · cases scopes with
      | nil => cases here
      | cons first _ => exact within.weaken symbol first (.head _) entry here
  · exact within.weaken symbol frame (mem_of_mem_tail mem) entry here

end

end Scopes.Within

namespace Resolve

abbrev Resolves {α : Type} (computation : ResolveM α) (start : Nat) (post : α → Nat → Prop) : Prop :=
  Meets (fun _ => True) computation start post

theorem declare_spec (within : scopes.Within scope) (ident : Ident) (start : Nat) :
    Resolves (declare scopes ident) start fun (symbol, inner) stop =>
      symbol.number = start ∧ stop = start + 1 ∧ symbol.display = ident.name ∧
        inner.Within (symbol :: scope) := by
  unfold declare
  dsimp only
  split
  · exact .throw trivial
  · refine .get (.modify (.pure ⟨rfl, rfl, rfl, ?_⟩))
    split
    · exact within.weaken _
    · exact within.bind _ _

theorem type_spec (type : TypeExpr) (start : Nat) :
    Resolves (liftM (type.resolve aliases)) start fun hint stop =>
      stop = start ∧ hint.Within aliases.length :=
  .lift (fun _ resolved => ⟨rfl, type.within_resolve resolved⟩) (fun _ _ => trivial)

theorem hint_spec (hint : Option TypeExpr) (start : Nat) :
    Resolves (Resolve.hint aliases hint) start fun hint' stop =>
      stop = start ∧ ∀ here ∈ hint'.toList, here.Within aliases.length := by
  cases hint with
  | none => exact .pure ⟨rfl, fun _ mem => nomatch mem⟩
  | some type =>
    refine .bind (type_spec type start) ?_
    rintro here stop ⟨rfl, within⟩
    refine .pure ⟨rfl, fun other mem => ?_⟩
    obtain rfl : other = here := by simpa using mem
    exact within

theorem binder_spec (within : scopes.Within scope) (binder : Binder Ident TypeExpr) (start : Nat) :
    Resolves (Resolve.binder aliases scopes binder) start fun (binder', inner) stop =>
      Numbered start [binder'.name] stop ∧ binder'.name.display = binder.name.name ∧
        (∀ hint ∈ binder'.hint.toList, hint.Within aliases.length) ∧
        inner.Within (binder'.name :: scope) := by
  unfold Resolve.binder
  refine .bind (hint_spec binder.hint start) fun hint stop found => ?_
  obtain ⟨rfl, hint_within⟩ := found
  refine .bind (declare_spec within binder.name stop) fun (symbol, inner) stop' declared => ?_
  obtain ⟨rfl, rfl, display, inner_within⟩ := declared
  exact .pure ⟨.single symbol, display, hint_within, inner_within⟩

theorem binders_spec (within : scopes.Within scope) (binders : List (Binder Ident TypeExpr))
    (start : Nat) :
    Resolves (Resolve.binders aliases scopes binders) start fun (binders', inner) stop =>
      Numbered start (binders'.map Binder.name) stop ∧
        (∀ symbol ∈ binders'.map Binder.name, ∃ ident ∈ binders.map Binder.name,
          symbol.display = ident.name) ∧
        (∀ hint ∈ binders'.flatMap (fun binder => binder.hint.toList), hint.Within aliases.length) ∧
        inner.Within (binders'.map Binder.name ++ scope) := by
  induction binders generalizing scopes scope start with
  | nil =>
    exact .pure ⟨.nil start, fun _ mem => (nomatch mem), fun _ mem => (nomatch mem), within⟩
  | cons first _ ih =>
    rw [Resolve.binders]
    refine .bind (binder_spec within first start) fun (first', inner) middle spec => ?_
    obtain ⟨numbered, display, hints, within'⟩ := spec
    refine .map (ih within' middle) fun (rest', inner') stop spec => ?_
    obtain ⟨rest_numbered, displays, rest_hints, within''⟩ := spec
    refine ⟨numbered.append rest_numbered, ?_, ?_, ?_⟩
    · simp only [map_cons, forall_mem_cons]
      exact ⟨⟨first.name, .head _, display⟩, fun symbol mem =>
        (displays symbol mem).imp fun _ found => ⟨.tail _ found.1, found.2⟩⟩
    · intro hint mem
      rw [flatMap_cons, mem_append] at mem
      exact mem.elim (hints hint) (rest_hints hint)
    · intro frame mem entry here
      have found := within'' frame mem entry here
      simp only [mem_append, mem_cons, map_cons] at found ⊢
      grind

structure Placed (fine : String → Prop) (count : Nat) (scope : List Symbol) (start : Nat)
    (expr : Expr Symbol Reference Annotation Span) (stop : Nat) : Prop where
  fits : Scoped fine count scope expr
  numbered : Numbered start expr.names stop

inductive PlacedAll (fine : String → Prop) (count : Nat) (scope : List Symbol) :
    Nat → List (Expr Symbol Reference Annotation Span) → Nat → Prop where
  | nil {start : Nat} : PlacedAll fine count scope start [] start
  | cons {start middle stop : Nat} {first : Expr Symbol Reference Annotation Span}
      {rest : List (Expr Symbol Reference Annotation Span)}
      (first_placed : Placed fine count scope start first middle)
      (rest_placed : PlacedAll fine count scope middle rest stop) :
      PlacedAll fine count scope start (first :: rest) stop

section

variable {count start stop : Nat} {expr : Term}
  {exprs : List Term}

section

variable (placed : PlacedAll fine count scope start exprs stop)
include placed

theorem PlacedAll.fits : ∀ expr ∈ exprs, Scoped fine count scope expr := by
  induction placed with
  | nil => exact fun _ mem => nomatch mem
  | cons first _ ih =>
    intro expr mem
    rcases mem_cons.mp mem with rfl | mem
    · exact first.fits
    · exact ih expr mem

theorem PlacedAll.numbered : Numbered start (exprs.flatMap Expr.names) stop := by
  induction placed with
  | nil => exact .nil _
  | cons first _ ih => exact first.numbered.append ih

theorem Placed.plain (parts : expr.parts = exprs.map (Prod.mk [])) (binds : expr.binds = [])
    (ref? : expr.ref? = none)
    (hints : ∀ hint ∈ expr.hints, hint.Within count) : Placed fine count scope start expr stop := by
  constructor
  · refine .node (fun ref here => ?_) (fun _ mem => ?_) hints fun _ mem => ?_
    · rw [ref?] at here
      cases here
    · rw [binds] at mem
      cases mem
    · rw [parts, mem_map] at mem
      obtain ⟨inner, mem, rfl⟩ := mem
      exact placed.fits inner mem
  · refine placed.numbered.perm ?_
    have perm := expr.names_perm
    rw [binds, parts, nil_append, flatMap_map] at perm
    exact perm

end

end

theorem target_spec (within : scopes.Within scope) (mention : Mention)
    (named : fine mention.ident.name) (start : Nat) :
    Resolves (Resolve.target scopes mention.ident) start fun target stop =>
      stop = start ∧
        match target with
        | .bound symbol => symbol ∈ scope
        | .external name => fine name := by
  unfold Resolve.target
  dsimp only
  split
  · exact .throw trivial
  · split
    · next symbol found => exact .pure ⟨rfl, within.find? found⟩
    · exact .pure ⟨rfl, named⟩

theorem exprs_spec {exprs : List (Expr Ident Mention TypeExpr Span)}
    (each : ∀ expr ∈ exprs, ∀ start,
      Resolves (Resolve.expr aliases scopes expr) start (Placed fine aliases.length scope start))
    (start : Nat) :
    Resolves (Resolve.exprs aliases scopes exprs) start
      (PlacedAll fine aliases.length scope start) := by
  induction exprs generalizing start with
  | nil => exact .pure .nil
  | cons first _ ih =>
    rw [Resolve.exprs]
    refine .bind (each first (.head _) start) fun _ middle first_placed => ?_
    refine .map (ih (fun expr mem => each expr (.tail _ mem)) middle) fun _ _ rest_placed => ?_
    exact .cons first_placed rest_placed

theorem expr_spec (expr : Expr Ident Mention TypeExpr Span) (within : scopes.Within scope)
    (named : Named fine expr) (start : Nat) :
    Resolves (Resolve.expr aliases scopes expr) start (Placed fine aliases.length scope start) := by
  have no_hints : ∀ hint ∈ ([] : List Annotation), hint.Within aliases.length := forall_mem_nil _
  induction expr generalizing scopes scope start with
  | lit _ _ => exact .pure (.plain .nil rfl rfl rfl no_hints)
  | none _ => exact .pure (.plain .nil rfl rfl rfl no_hints)
  | var _ mention =>
    rw [Resolve.expr]
    refine .map (target_spec within mention (named.ref rfl) start) fun target _ spec => ?_
    obtain ⟨rfl, means⟩ := spec
    refine ⟨.node (fun ref here => ?_) (forall_mem_nil _) no_hints (forall_mem_nil _), .nil _⟩
    obtain rfl := Option.some.inj here
    exact means
  | unary _ _ operand ih =>
    rw [Resolve.expr]
    refine .map (ih within named.part start) fun _ _ operand => ?_
    exact .plain (.cons operand .nil) rfl rfl rfl no_hints
  | binary _ _ lhs rhs lhs_ih rhs_ih =>
    rw [Resolve.expr]
    refine .bind (lhs_ih within named.part start) fun _ _ lhs => ?_
    refine .map (rhs_ih within named.part _) fun _ _ rhs => ?_
    exact .plain (.cons lhs (.cons rhs .nil)) rfl rfl rfl no_hints
  | cond _ test yes no test_ih yes_ih no_ih =>
    rw [Resolve.expr]
    refine .bind (test_ih within named.part start) fun _ _ test => ?_
    refine .bind (yes_ih within named.part _) fun _ _ yes => ?_
    refine .map (no_ih within named.part _) fun _ _ no => ?_
    exact .plain (.cons test (.cons yes (.cons no .nil))) rfl rfl rfl no_hints
  | letIn _ binder bound body bound_ih body_ih =>
    rw [Resolve.expr]
    refine .bind (bound_ih within named.part start) fun _ _ bound => ?_
    refine .bind (binder_spec within.push binder _) fun made _ spec => ?_
    obtain ⟨binder', inner⟩ := made
    obtain ⟨numbered, display, hints, inner_within⟩ := spec
    refine .map (body_ih inner_within named.part _) fun _ _ body => ?_
    refine ⟨.node (by simp [Expr.ref?]) ?_ hints ?_, ?_⟩
    · simpa [Expr.binds, display] using named.binds
    · simp [Expr.parts, bound.fits, body.fits]
    · exact (bound.numbered.append (numbered.append body.numbered)).perm
        ((Expr.names_perm _).trans (by simpa [Expr.binds, Expr.parts] using perm_middle.symm))
  | letRec _ name params result body rest body_ih rest_ih =>
    rw [Resolve.expr]
    refine .bind (declare_spec within.push name start) fun made _ spec => ?_
    obtain ⟨name', _⟩ := made
    obtain ⟨rfl, rfl, display, outer_within⟩ := spec
    refine .bind (binders_spec outer_within.push params _) fun made _ spec => ?_
    obtain ⟨_, inner⟩ := made
    obtain ⟨numbered, displays, param_hints, inner_within⟩ := spec
    refine .bind (hint_spec result _) fun _ _ spec => ?_
    obtain ⟨rfl, result_hint⟩ := spec
    refine .bind (body_ih inner_within named.part _) fun _ _ body => ?_
    refine .map (rest_ih outer_within named.part _) fun _ _ rest => ?_
    refine ⟨.node (by simp [Expr.ref?]) ?_ ?_ ?_, ?_⟩
    · rintro symbol (_ | ⟨_, mem⟩)
      · rw [display]
        exact named.binds name (.head _)
      · obtain ⟨ident, there, same⟩ := displays symbol mem
        rw [same]
        exact named.binds ident (.tail _ there)
    · intro hint mem
      exact (mem_append.mp mem).elim (param_hints hint) (result_hint hint)
    · simp [Expr.parts, body.fits, rest.fits]
    · exact ((Numbered.single name').append (numbered.append (body.numbered.append rest.numbered))).perm
        ((Expr.names_perm _).trans (by simp [Expr.binds, Expr.parts]))
  | letTuple _ binders bound body bound_ih body_ih =>
    rw [Resolve.expr]
    refine .bind (bound_ih within named.part start) fun _ _ bound => ?_
    refine .bind (binders_spec within.push binders _) fun made _ spec => ?_
    obtain ⟨_, inner⟩ := made
    obtain ⟨numbered, displays, hints, inner_within⟩ := spec
    refine .map (body_ih inner_within named.part _) fun _ _ body => ?_
    refine ⟨.node (by simp [Expr.ref?]) ?_ hints ?_, ?_⟩
    · intro symbol mem
      obtain ⟨ident, there, same⟩ := displays symbol mem
      rw [same]
      exact named.binds ident there
    · simp [Expr.parts, bound.fits, body.fits]
    · exact (bound.numbered.append (numbered.append body.numbered)).perm
        ((Expr.names_perm _).trans (by simp [Expr.binds, Expr.parts, perm_append_comm_assoc]))
  | apply _ callee args callee_ih args_ih =>
    rw [Resolve.expr]
    refine .bind (callee_ih within named.part start) fun _ _ callee => ?_
    refine .map (exprs_spec (fun arg mem => args_ih arg mem within
      (named.part (by simp [Expr.parts, mem]))) _) fun _ _ args => ?_
    exact .plain (.cons callee args) rfl rfl rfl no_hints
  | tuple _ elements ih =>
    rw [Resolve.expr]
    refine .map (exprs_spec (fun element mem => ih element mem within
      (named.part (by simp [Expr.parts, mem]))) start) fun _ _ elements => ?_
    exact .plain elements rfl rfl rfl no_hints
  | arrayMake _ size element size_ih element_ih =>
    rw [Resolve.expr]
    refine .bind (size_ih within named.part start) fun _ _ size => ?_
    refine .map (element_ih within named.part _) fun _ _ element => ?_
    exact .plain (.cons size (.cons element .nil)) rfl rfl rfl no_hints
  | arrayLit _ elements ih =>
    rw [Resolve.expr]
    refine .map (exprs_spec (fun element mem => ih element mem within
      (named.part (by simp [Expr.parts, mem]))) start) fun _ _ elements => ?_
    exact .plain elements rfl rfl rfl no_hints
  | arrayLen _ array ih =>
    rw [Resolve.expr]
    refine .map (ih within named.part start) fun _ _ array => ?_
    exact .plain (.cons array .nil) rfl rfl rfl no_hints
  | arrayGet _ array index array_ih index_ih =>
    rw [Resolve.expr]
    refine .bind (array_ih within named.part start) fun _ _ array => ?_
    refine .map (index_ih within named.part _) fun _ _ index => ?_
    exact .plain (.cons array (.cons index .nil)) rfl rfl rfl no_hints
  | arraySet _ array index value array_ih index_ih value_ih =>
    rw [Resolve.expr]
    refine .bind (array_ih within named.part start) fun _ _ array => ?_
    refine .bind (index_ih within named.part _) fun _ _ index => ?_
    refine .map (value_ih within named.part _) fun _ _ value => ?_
    exact .plain (.cons array (.cons index (.cons value .nil))) rfl rfl rfl no_hints
  | some _ element ih =>
    rw [Resolve.expr]
    refine .map (ih within named.part start) fun _ _ element => ?_
    exact .plain (.cons element .nil) rfl rfl rfl no_hints
  | matchOption _ target binder someArm noneArm target_ih some_ih none_ih =>
    rw [Resolve.expr]
    refine .bind (target_ih within named.part start) fun _ _ target => ?_
    refine .bind (binder_spec within.push binder _) fun made _ spec => ?_
    obtain ⟨binder', inner⟩ := made
    obtain ⟨numbered, display, hints, inner_within⟩ := spec
    refine .bind (some_ih inner_within named.part _) fun _ _ someArm => ?_
    refine .map (none_ih within named.part _) fun _ _ noneArm => ?_
    refine ⟨.node (by simp [Expr.ref?]) ?_ hints ?_, ?_⟩
    · simpa [Expr.binds, display] using named.binds
    · simp [Expr.parts, target.fits, someArm.fits, noneArm.fits]
    · exact (target.numbered.append (numbered.append (someArm.numbered.append noneArm.numbered))).perm
        ((Expr.names_perm _).trans (by simpa [Expr.binds, Expr.parts] using perm_middle.symm))
  | typed _ child type ih =>
    rw [Resolve.expr]
    refine .bind (ih within named.part start) fun _ _ child => ?_
    refine .map (type_spec type _) fun hint _ spec => ?_
    obtain ⟨rfl, hint_within⟩ := spec
    exact .plain (.cons child .nil) rfl rfl rfl (by simpa [Expr.hints] using hint_within)

theorem aliases_within {written : List (Alias TypeExpr)} {resolved : List (Alias Annotation)}
    (done : Resolve.aliases before written = .ok resolved) {index : Nat} {entry : Alias Annotation}
    (here : resolved[index]? = some entry) :
    entry.type.Within (before.length + index) := by
  induction written generalizing before resolved index with
  | nil =>
    cases done
    cases here
  | cons first _ ih =>
    rw [Resolve.aliases] at done
    obtain ⟨type, type_resolved, done⟩ := bind_eq_ok.mp done
    dsimp only at done
    split at done
    · cases done
    · obtain ⟨_, rest_resolved, ended⟩ := bind_eq_ok.mp done
      cases ended
      cases index with
      | zero =>
        obtain rfl := Option.some.inj here
        exact first.type.within_resolve type_resolved
      | succ index =>
        have within := ih rest_resolved here
        rw [length_append] at within
        exact Nat.add_right_comm before.length 1 index ▸ within

theorem declarations_within (done : Resolve.declarations aliases before written = .ok resolved) :
    ∀ entry ∈ resolved, entry.type.Within aliases.length := by
  induction written generalizing before resolved with
  | nil =>
    cases done
    exact fun _ mem => nomatch mem
  | cons first _ ih =>
    rw [Resolve.declarations] at done
    obtain ⟨type, type_resolved, done⟩ := bind_eq_ok.mp done
    dsimp only at done
    split at done
    · cases done
    · obtain ⟨_, rest_resolved, ended⟩ := bind_eq_ok.mp done
      cases ended
      intro entry mem
      rcases mem_cons.mp mem with rfl | mem
      · exact first.type.within_resolve type_resolved
      · exact ih rest_resolved entry mem

theorem declarations_distinct (done : Resolve.declarations aliases before written = .ok resolved) :
    (resolved.map fun entry => entry.name.name).Nodup ∧
      ∀ entry ∈ resolved, entry.name.name ∉ before := by
  induction written generalizing before resolved with
  | nil =>
    cases done
    exact ⟨nodup_nil, fun _ mem => nomatch mem⟩
  | cons _ _ ih =>
    rw [Resolve.declarations] at done
    obtain ⟨_, -, done⟩ := bind_eq_ok.mp done
    dsimp only at done
    split at done
    · cases done
    · next unused =>
      obtain ⟨_, rest_resolved, ended⟩ := bind_eq_ok.mp done
      cases ended
      obtain ⟨distinct, others⟩ := ih rest_resolved
      refine ⟨nodup_cons.mpr ⟨fun mem => ?_, distinct⟩, fun entry mem => ?_⟩
      · obtain ⟨entry, there, same⟩ := mem_map.mp mem
        exact others entry there (same ▸ mem_cons_self)
      · rcases mem_cons.mp mem with rfl | mem
        · simpa using unused
        · exact fun used => others entry mem (.tail _ used)

end Resolve

structure Resolved.WellScoped (fine : String → Prop) (program : Resolved) : Prop where
  aliases {index : Nat} {entry : Alias Annotation} (here : program.aliases[index]? = some entry) :
    entry.type.Within index
  externals : ∀ entry ∈ program.externals, entry.type.Within program.aliases.length
  declared_once : (program.externals.map fun entry => entry.name.name).Nodup
  body : Scoped fine program.aliases.length [] program.body
  distinct : (program.body.names.map Symbol.number).Nodup

theorem Surface.wellScoped_resolve {resolved : Resolved} (named : Named fine program.body)
    (done : program.resolve = .ok resolved) : resolved.WellScoped fine := by
  obtain ⟨_, aliases_resolved, done⟩ := bind_eq_ok.mp done
  obtain ⟨_, externals_resolved, done⟩ := bind_eq_ok.mp done
  obtain ⟨⟨body, _⟩, body_resolved, ended⟩ := bind_eq_ok.mp done
  cases ended
  have within : Scopes.Within [] [] := fun _ mem => nomatch mem
  have placed := (Resolve.expr_spec program.body within named 0).of_run body_resolved
  refine ⟨fun here => ?_, fun entry mem => ?_,
    (Resolve.declarations_distinct externals_resolved).1, ?_, placed.numbered.distinct⟩
  · simpa using Resolve.aliases_within aliases_resolved here
  · simpa using Resolve.declarations_within externals_resolved entry mem
  · simpa using placed.fits

theorem Surface.wellScoped_of_resolve {resolved : Resolved} (done : program.resolve = .ok resolved) :
    resolved.WellScoped fun _ => True :=
  wellScoped_resolve (.of_names (fun _ _ => trivial) fun _ _ => trivial) done

end MiddleEnd
