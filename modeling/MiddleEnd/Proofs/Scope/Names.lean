import MiddleEnd.Proofs.Tree.Parts
import MiddleEnd.Scope.Names

/-! Resolution with tables finds what resolution finds. Each name is entered under an identifier of its own,
so it is found there, and each scope that is pushed is popped. -/

namespace MiddleEnd

open List

variable {α β : Type} {scopes : Scopes} {names larger : Names} {state : Entering} {count : Nat}
  {ident : Ident} {aliases : List String} {ids : List Nat} {old : ResolveM α} {new : EnterM Unit}
  {after : α → Scopes → Prop} {reads : Names → α → Prop} {id : Nat}

namespace Names

structure Within (names larger : Names) : Prop where
  symbols : ∀ (number : Nat) (symbol : Symbol), names.symbols[number]? = some symbol →
    larger.symbols[number]? = some symbol
  bindings : ∀ id number, names.bindings.lookup id = some number → larger.bindings.lookup id = some number
  values : ∀ id value, names.values.lookup id = some value → larger.values.lookup id = some value
  types : ∀ id type, names.types.lookup id = some type → larger.types.lookup id = some type

theorem Within.refl (names : Names) : names.Within names :=
  ⟨fun _ _ => id, fun _ _ => id, fun _ _ => id, fun _ _ => id⟩

theorem Within.trans {largest : Names} (first : names.Within larger) (second : larger.Within largest) :
    names.Within largest where
  symbols number symbol found := second.symbols number symbol (first.symbols number symbol found)
  bindings id number found := second.bindings id number (first.bindings id number found)
  values id value found := second.values id value (first.values id value found)
  types id type found := second.types id type (first.types id type found)

structure Fresh (names : Names) (id : Nat) : Prop where
  bindings : names.bindings.lookup id = none
  values : names.values.lookup id = none
  types : names.types.lookup id = none

theorem lookup_cons_of_some {entries : List (Nat × α)} {key : Nat} {value found : α}
    (fresh : entries.lookup key = none) (present : entries.lookup id = some found) :
    ((key, value) :: entries).lookup id = some found := by
  have differs : (id == key) = false := by
    rw [beq_eq_false_iff_ne]
    rintro rfl
    cases fresh.symm.trans present
  rw [lookup_cons, differs, present]

theorem lookup_cons_of_none {entries : List (Nat × α)} {key : Nat} {value : α} (differs : id ≠ key)
    (absent : entries.lookup id = none) : ((key, value) :: entries).lookup id = none := by
  rw [lookup_cons, beq_eq_false_iff_ne.mpr differs, absent]

theorem within_addSymbol (fresh : names.Fresh ident.id) : names.Within (names.addSymbol ident) where
  symbols number symbol found := by
    obtain ⟨bound, _⟩ := Array.getElem?_eq_some_iff.mp found
    rw [addSymbol, Array.getElem?_push_lt bound]
    exact Array.getElem?_eq_some_iff.mp found |>.2 ▸ rfl
  bindings _ _ := lookup_cons_of_some fresh.bindings
  values _ _ := fun found => found
  types _ _ := fun found => found

theorem within_addValue (fresh : names.Fresh ident.id) (value : ValueName) :
    names.Within (names.addValue ident value) :=
  ⟨fun _ _ found => found, fun _ _ found => found, fun _ _ => lookup_cons_of_some fresh.values,
    fun _ _ found => found⟩

theorem within_addType (fresh : names.Fresh ident.id) (type : TypeName) :
    names.Within (names.addType ident type) :=
  ⟨fun _ _ found => found, fun _ _ found => found, fun _ _ found => found,
    fun _ _ => lookup_cons_of_some fresh.types⟩

theorem typeName_of_found {type : TypeName} (found : names.types.lookup ident.id = some type) :
    names.typeName ident = .ok type := by
  unfold typeName
  rw [found]
  rfl

theorem symbol_of_found {number : Nat} {symbol : Symbol} (found : names.symbols[number]? = some symbol) :
    names.symbol number = .ok symbol := by
  unfold Names.symbol
  rw [found]
  rfl

theorem binding_of_found {number : Nat} {symbol : Symbol} (found : names.bindings.lookup ident.id = some number)
    (known : names.symbols[number]? = some symbol) : names.binding ident = .ok symbol := by
  unfold binding
  rw [found]
  exact symbol_of_found known

theorem target_of_bound {number : Nat} {symbol : Symbol}
    (found : names.values.lookup ident.id = some (.bound number))
    (known : names.symbols[number]? = some symbol) : names.target ident = .ok (.bound symbol) := by
  unfold target
  rw [found]
  dsimp only
  rw [symbol_of_found known]
  rfl

theorem target_of_external {name : String} (found : names.values.lookup ident.id = some (.external name)) :
    names.target ident = .ok (.external name) := by
  unfold target
  rw [found]
  rfl

end Names

/-! ### Scopes -/

structure Entering.Links (state : Entering) (scopes : Scopes) (count : Nat) : Prop where
  stack : state.scopes = scopes.map (·.map fun entry => (entry.1, entry.2.number))
  size : state.names.symbols.size = count
  known : ∀ scope ∈ scopes, ∀ entry ∈ scope, state.names.symbols[entry.2.number]? = some entry.2

def Scopes.Keeps (scopes later : Scopes) : Prop := later.tail = scopes.tail ∧ (scopes ≠ [] → later ≠ [])

theorem lookup_numbers (scope : List (String × Symbol)) (name : String) :
    (scope.map fun entry => (entry.1, entry.2.number)).lookup name = (scope.lookup name).map Symbol.number := by
  induction scope with
  | nil => rfl
  | cons entry scope ih =>
    obtain ⟨key, symbol⟩ := entry
    rw [map_cons, lookup_cons, lookup_cons]
    cases name == key
    · exact ih
    · rfl

theorem findSome_numbers (scopes : Scopes) (name : String) :
    (scopes.map (·.map fun entry => (entry.1, entry.2.number))).findSome? (·.lookup name) =
      (scopes.find? name).map Symbol.number := by
  induction scopes with
  | nil => rfl
  | cons scope scopes ih =>
    rw [map_cons, findSome?_cons, lookup_numbers, Scopes.find?, findSome?_cons]
    cases scope.lookup name
    · exact ih
    · rfl

theorem Enter.run_pop {scope : List (String × Nat)} {outer : List (List (String × Nat))}
    (shape : state.scopes = scope :: outer) : pop.run state = .ok ((), { state with scopes := outer }) := by
  obtain ⟨_, _⟩ := state
  cases shape
  rfl

theorem Enter.run_bind {name : String} {number : Nat} {scope : List (String × Nat)}
    {outer : List (List (String × Nat))} (shape : state.scopes = scope :: outer) :
    (Enter.bind name number).run state =
      .ok ((), { state with scopes := ((name, number) :: scope) :: outer }) := by
  obtain ⟨_, _⟩ := state
  cases shape
  rfl

theorem Entering.Links.known_of_find {symbol : Symbol} {name : String} (links : state.Links scopes count)
    (found : scopes.find? name = some symbol) : state.names.symbols[symbol.number]? = some symbol := by
  obtain ⟨scope, inside, found⟩ := exists_of_findSome?_eq_some found
  obtain ⟨front, back, rfl, _⟩ := lookup_eq_some_iff.mp found
  exact links.known _ inside (name, symbol) (by simp)

/-! ### Runs side by side -/

def Pairs (outcome : Except Diagnostic (α × Nat)) (entered : Except Stop (Unit × Entering))
    (post : α → Nat → Entering → Prop) : Prop :=
  match outcome with
  | .error diagnostic => entered = .error (.rejected diagnostic)
  | .ok (value, count) => ∃ later, entered = .ok ((), later) ∧ post value count later

def Enters (scopes : Scopes) (old : ResolveM α) (after : α → Scopes → Prop) (new : EnterM Unit) (ids : List Nat)
    (reads : Names → α → Prop) : Prop :=
  ∀ ⦃state : Entering⦄ ⦃count : Nat⦄, state.Links scopes count → ids.Nodup →
    (∀ id ∈ ids, state.names.Fresh id) →
    Pairs (old.run count) (new.run state) fun value count' later =>
      (∃ scopes', later.Links scopes' count' ∧ scopes.Keeps scopes' ∧ after value scopes') ∧
      state.names.Within later.names ∧ (∀ id, state.names.Fresh id → id ∉ ids → later.names.Fresh id) ∧
      ∀ larger, later.names.Within larger → reads larger value

abbrev Unmoved {α : Type} (scopes : Scopes) : α → Scopes → Prop := fun _ later => scopes = later

abbrev MovedTo {α : Type} : α × Scopes → Scopes → Prop := fun value later => value.2 = later

namespace Enters

theorem pure {value : α} (same : after value scopes) (holds : ∀ larger, reads larger value) :
    Enters scopes (Pure.pure value) after (Pure.pure ()) [] reads := by
  intro state count links _ _
  exact ⟨state, rfl, ⟨scopes, links, ⟨rfl, id⟩, same⟩, .refl _, fun _ fresh _ => fresh, fun _ _ => holds _⟩

theorem reject {problem : Problem} {span : Span} :
    Enters scopes (MiddleEnd.reject problem span) after (Enter.reject problem span) ids reads :=
  fun _ _ _ _ _ => rfl

theorem bind {old' : α → ResolveM β} {after' : β → Scopes → Prop} {new' : EnterM Unit} {ids' : List Nat}
    {reads' : Names → β → Prop} (first : Enters scopes old after new ids reads)
    (second : ∀ value scopes', scopes.Keeps scopes' → after value scopes' →
      Enters scopes' (old' value) after' new' ids' fun larger result => reads larger value → reads' larger result) :
    Enters scopes (old >>= old') after' (new >>= fun _ => new') (ids ++ ids') reads' := by
  intro state count links nodup fresh
  obtain ⟨nodup, nodup', apart⟩ := nodup_append.mp nodup
  obtain ⟨fresh, fresh'⟩ := forall_mem_append.mp fresh
  have start := first links nodup fresh
  change Pairs (old.run count >>= fun result => (old' result.1).run result.2)
    (new.run state >>= fun result => new'.run result.2) _
  cases run : old.run count with
  | error diagnostic =>
    rw [run] at start
    have start : new.run state = .error (.rejected diagnostic) := start
    rw [start]
    exact rfl
  | ok result =>
    rw [run] at start
    obtain ⟨later, entered, ⟨scopes', links, keeps, here⟩, within, stays, read⟩ := start
    rw [entered]
    have rest := second result.1 scopes' keeps here links nodup' fun id mem =>
      stays id (fresh' id mem) fun mem' => apart id mem' id mem rfl
    change Pairs ((old' result.1).run result.2) (new'.run later) _
    cases run' : (old' result.1).run result.2 with
    | error diagnostic =>
      rw [run'] at rest
      exact rest
    | ok result' =>
      rw [run'] at rest
      obtain ⟨final, entered, ⟨scopes'', links, keeps', there⟩, within', stays', read'⟩ := rest
      refine ⟨final, entered, ⟨scopes'', links, ⟨keeps'.1.trans keeps.1, fun some => keeps'.2 (keeps.2 some)⟩,
        there⟩, within.trans within', fun id fresh other => ?_, fun larger inside => ?_⟩
      · rw [mem_append, not_or] at other
        exact stays' id (stays id fresh other.1) other.2
      · exact read' larger inside (read larger (within'.trans inside))

theorem map {make : α → β} {after' : β → Scopes → Prop} {reads' : Names → β → Prop}
    (enters : Enters scopes old after new ids reads)
    (same : ∀ value scopes', after value scopes' → after' (make value) scopes')
    (reading : ∀ larger value, reads larger value → reads' larger (make value)) :
    Enters scopes (old >>= fun value => Pure.pure (make value)) after' new ids reads' := by
  intro state count links nodup fresh
  have start := enters links nodup fresh
  change Pairs (old.run count >>= fun result => .ok (make result.1, result.2)) _ _
  cases run : old.run count with
  | error diagnostic =>
    rw [run] at start
    exact start
  | ok result =>
    rw [run] at start
    obtain ⟨later, entered, ⟨scopes', links, keeps, here⟩, within, stays, read⟩ := start
    exact ⟨later, entered, ⟨scopes', links, keeps, same _ _ here⟩, within, stays,
      fun larger inside => reading larger _ (read larger inside)⟩

theorem inScope (enters : Enters ([] :: scopes) old (fun _ _ => True) new ids reads) :
    Enters scopes old (Unmoved scopes) (Enter.inScope new) ids reads := by
  intro state count links nodup fresh
  have inner : Entering.Links { state with scopes := [] :: state.scopes } ([] :: scopes) count :=
    ⟨congrArg ([] :: ·) links.stack, links.size, forall_mem_cons.mpr ⟨forall_mem_nil _, links.known⟩⟩
  have start := enters inner nodup fresh
  change Pairs _ (new.run { state with scopes := [] :: state.scopes } >>= fun result => Enter.pop.run result.2) _
  cases run : old.run count with
  | error diagnostic =>
    rw [run] at start
    have start : new.run { state with scopes := [] :: state.scopes } = .error (.rejected diagnostic) := start
    rw [start]
    exact rfl
  | ok result =>
    rw [run] at start
    obtain ⟨later, entered, ⟨scopes', links', keeps, -⟩, within, stays, read⟩ := start
    rw [entered]
    obtain ⟨scope, outer, rfl⟩ := exists_cons_of_ne_nil (keeps.2 (cons_ne_nil _ _))
    obtain rfl : outer = scopes := keeps.1
    refine ⟨{ later with scopes := outer.map (·.map fun entry => (entry.1, entry.2.number)) }, ?_,
      ⟨outer, ⟨rfl, links'.size, (forall_mem_cons.mp links'.known).2⟩, ⟨rfl, id⟩, rfl⟩, within, stays, read⟩
    exact Enter.run_pop links'.stack

theorem addType (type : TypeName) : Enters scopes (Pure.pure () : ResolveM Unit) (Unmoved scopes)
    (Enter.addType ident type) [ident.id] fun larger _ => larger.typeName ident = .ok type := by
  intro state count links _ fresh
  have fresh := fresh ident.id (.head _)
  refine ⟨_, rfl, ⟨scopes, ⟨links.stack, links.size, links.known⟩, ⟨rfl, id⟩, rfl⟩, Names.within_addType fresh type,
    fun other absent differs => ?_, fun larger within => ?_⟩
  · exact ⟨absent.bindings, absent.values,
      Names.lookup_cons_of_none (ne_of_not_mem_cons differs) absent.types⟩
  · exact Names.typeName_of_found (within.types ident.id type lookup_cons_self)

theorem addType_then {value : α} (type : TypeName)
    (reading : ∀ larger, Names.typeName larger ident = .ok type → reads larger value) :
    Enters scopes (Pure.pure value) (Unmoved scopes) (Enter.addType ident type) [ident.id] reads := by
  have step : Enters scopes ((Pure.pure () : ResolveM Unit) >>= fun _ => Pure.pure value)
      (Unmoved scopes) (Enter.addType ident type) [ident.id] reads :=
    (addType type).map (fun _ _ same => same) fun larger _ found => reading larger found
  exact step

theorem target (scopes : Scopes) (ident : Ident) : Enters scopes (Resolve.target scopes ident)
    (Unmoved scopes) (Enter.target ident) [ident.id]
    fun larger value => larger.target ident = .ok value := by
  unfold Resolve.target Enter.target
  by_cases wild : isWildcard ident.name = true
  · rw [if_pos wild, if_pos wild]
    exact fun _ _ _ _ _ => rfl
  · rw [if_neg wild, if_neg wild]
    intro state count links _ fresh
    have fresh := fresh ident.id (.head _)
    have seen := findSome_numbers scopes ident.name
    rw [← links.stack] at seen
    have stays (value : ValueName) (other : Nat) (absent : state.names.Fresh other)
        (differs : other ∉ [ident.id]) : (state.names.addValue ident value).Fresh other :=
      ⟨absent.bindings, Names.lookup_cons_of_none (ne_of_not_mem_cons differs) absent.values, absent.types⟩
    cases found : scopes.find? ident.name with
    | none =>
      refine ⟨{ state with names := state.names.addValue ident (.external ident.name) }, ?_,
        ⟨scopes, ⟨links.stack, links.size, links.known⟩, ⟨rfl, id⟩, rfl⟩, Names.within_addValue fresh _, stays _,
        fun larger within => ?_⟩
      · have value : state.value ident.name = .external ident.name := by
          unfold Entering.value
          rw [seen, found]
          rfl
        rw [← value]
        rfl
      · exact Names.target_of_external (within.values ident.id _ lookup_cons_self)
    | some symbol =>
      refine ⟨{ state with names := state.names.addValue ident (.bound symbol.number) }, ?_,
        ⟨scopes, ⟨links.stack, links.size, links.known⟩, ⟨rfl, id⟩, rfl⟩, Names.within_addValue fresh _, stays _,
        fun larger within => ?_⟩
      · have value : state.value ident.name = .bound symbol.number := by
          unfold Entering.value
          rw [seen, found]
          rfl
        rw [← value]
        rfl
      · exact Names.target_of_bound (within.values ident.id _ lookup_cons_self)
          (within.symbols _ _ (links.known_of_find found))

theorem declare {scope : List (String × Symbol)} {outer : Scopes} (ident : Ident) :
    Enters (scope :: outer) (Resolve.declare (scope :: outer) ident) MovedTo (Enter.declare ident) [ident.id]
      fun larger value => larger.binding ident = .ok value.1 := by
  intro state count links _ fresh
  have fresh := fresh ident.id (.head _)
  have taken : state.isTaken ident.name = (!isWildcard ident.name && (scope.lookup ident.name).isSome) := by
    unfold Entering.isTaken
    rw [links.stack, map_cons, headD_cons, lookup_numbers, Option.isSome_map]
  have within := Names.within_addSymbol fresh
  have own : (state.names.addSymbol ident).symbols[count]? = some ⟨count, ident.name, ident.span⟩ := by
    rw [← links.size]
    exact Array.getElem?_push_size
  have stays (other : Nat) (absent : state.names.Fresh other) (differs : other ∉ [ident.id]) :
      (state.names.addSymbol ident).Fresh other :=
    ⟨Names.lookup_cons_of_none (ne_of_not_mem_cons differs) absent.bindings, absent.values, absent.types⟩
  have read (larger : Names) (inside : (state.names.addSymbol ident).Within larger) :
      larger.binding ident = .ok ⟨count, ident.name, ident.span⟩ := by
    refine Names.binding_of_found (inside.bindings ident.id count ?_) (inside.symbols _ _ own)
    rw [← links.size]
    exact lookup_cons_self
  have known (entries : List (String × Symbol)) (inside : entries ∈ scope :: outer) (entry : String × Symbol)
      (mem : entry ∈ entries) := within.symbols _ _ (links.known entries inside entry mem)
  have size : (state.names.addSymbol ident).symbols.size = count + 1 := by
    rw [← links.size]
    exact Array.size_push ..
  unfold Resolve.declare Enter.declare
  change Pairs _ (StateT.run (if state.isTaken ident.name = true then _ else _) state) _
  by_cases duplicate : (!isWildcard ident.name && (scope.lookup ident.name).isSome) = true
  · have same : (!isWildcard ident.name && ((Scopes.innermost (scope :: outer)).lookup ident.name).isSome) = true :=
      duplicate
    rw [if_pos (taken.trans duplicate), if_pos same]
    exact rfl
  · have same : ¬ (!isWildcard ident.name &&
        ((Scopes.innermost (scope :: outer)).lookup ident.name).isSome) = true := duplicate
    have free : ¬ state.isTaken ident.name = true := by rwa [taken]
    rw [if_neg same, if_neg free]
    change Pairs (.ok (((⟨count, ident.name, ident.span⟩ : Symbol), if isWildcard ident.name = true then scope :: outer
        else Scopes.bind (scope :: outer) ident.name ⟨count, ident.name, ident.span⟩), count + 1))
      (StateT.run (if isWildcard ident.name = true then Pure.pure ()
        else Enter.bind ident.name state.names.symbols.size)
        { state with names := state.names.addSymbol ident }) _
    by_cases wild : isWildcard ident.name = true
    · rw [if_pos wild, if_pos wild]
      exact ⟨_, rfl, ⟨_, ⟨links.stack, size, known⟩, ⟨rfl, id⟩, rfl⟩, within, stays, read⟩
    · rw [if_neg wild, if_neg wild, links.size]
      have shape : Entering.scopes { state with names := state.names.addSymbol ident } =
          (scope.map fun entry => (entry.1, entry.2.number)) ::
            outer.map (·.map fun entry => (entry.1, entry.2.number)) := links.stack
      refine ⟨_, Enter.run_bind shape, ⟨Scopes.bind (scope :: outer) ident.name ⟨count, ident.name, ident.span⟩,
        ⟨rfl, size, ?_⟩, ⟨rfl, fun _ => cons_ne_nil _ _⟩, rfl⟩, within, stays, read⟩
      obtain ⟨inner, outer⟩ := forall_mem_cons.mp known
      exact forall_mem_cons.mpr ⟨forall_mem_cons.mpr ⟨own, inner⟩, outer⟩

theorem declare_of_ne {scopes : Scopes} (some : scopes ≠ []) (ident : Ident) :
    Enters scopes (Resolve.declare scopes ident) MovedTo (Enter.declare ident) [ident.id]
      fun larger value => larger.binding ident = .ok value.1 := by
  obtain ⟨scope, outer, rfl⟩ := exists_cons_of_ne_nil some
  exact declare ident

end Enters

/-! ### Identifiers of a program -/

mutual
def TypeExpr.identIds : TypeExpr → List Nat
  | .hole _ => []
  | .named _ name => [name.id]
  | .applied _ name args => name.id :: TypeExpr.identIdsOf args
  | .tuple _ elements => TypeExpr.identIdsOf elements
  | .function _ params result => TypeExpr.identIdsOf params ++ result.identIds
def TypeExpr.identIdsOf : List TypeExpr → List Nat
  | [] => []
  | type :: types => type.identIds ++ TypeExpr.identIdsOf types
end

def TypeExpr.identIdsOf? : Option TypeExpr → List Nat
  | none => []
  | some type => type.identIds

def Binder.identIds (binder : Binder Ident TypeExpr) : List Nat :=
  TypeExpr.identIdsOf? binder.hint ++ [binder.name.id]

def Binder.identIdsOf : List (Binder Ident TypeExpr) → List Nat
  | [] => []
  | first :: rest => first.identIds ++ Binder.identIdsOf rest

mutual
def Expr.identIds : Expr Ident Mention TypeExpr Span → List Nat
  | .lit _ _ | .none _ => []
  | .var _ mention => [mention.ident.id]
  | .unary _ _ part | .arrayLen _ part | .some _ part => part.identIds
  | .binary _ _ first second | .arrayMake _ first second | .arrayGet _ first second =>
    first.identIds ++ second.identIds
  | .cond _ first second third | .arraySet _ first second third =>
    first.identIds ++ (second.identIds ++ third.identIds)
  | .letIn _ binder bound body => bound.identIds ++ (binder.identIds ++ body.identIds)
  | .letRec _ name params result body rest =>
    [name.id] ++ ((Binder.identIdsOf params ++ (TypeExpr.identIdsOf? result ++ body.identIds)) ++ rest.identIds)
  | .letTuple _ binders bound body => bound.identIds ++ (Binder.identIdsOf binders ++ body.identIds)
  | .apply _ callee args => callee.identIds ++ Expr.identIdsOf args
  | .tuple _ elements | .arrayLit _ elements => Expr.identIdsOf elements
  | .matchOption _ target binder someArm noneArm =>
    target.identIds ++ ((binder.identIds ++ someArm.identIds) ++ noneArm.identIds)
  | .typed _ child type => child.identIds ++ type.identIds
def Expr.identIdsOf : List (Expr Ident Mention TypeExpr Span) → List Nat
  | [] => []
  | first :: rest => first.identIds ++ Expr.identIdsOf rest
end

/-! ### Types -/

namespace Enters

def lift (outcome : Except Diagnostic α) : ResolveM α := liftM outcome

theorem lift_bind (outcome : Except Diagnostic α) (rest : α → Except Diagnostic β) :
    lift (outcome >>= rest) = lift outcome >>= fun value => lift (rest value) := by
  cases outcome <;> rfl

mutual
theorem type (scopes : Scopes) (aliases : List String) : ∀ type : TypeExpr,
    Enters scopes (lift (type.resolve aliases)) (Unmoved scopes) (Enter.type aliases type) type.identIds
      fun larger value => larger.readType type = .ok value
  | .hole span => by
    rw [TypeExpr.resolve, Enter.type, TypeExpr.identIds]
    exact .pure rfl fun _ => rfl
  | .named span name => by
    rw [TypeExpr.resolve, Enter.type, TypeExpr.identIds]
    cases Primitive.ofName? name.name with
    | some primitive =>
      refine addType_then (.prim primitive) fun larger found => ?_
      rw [Names.readType, found]
      rfl
    | none =>
      cases aliases.idxOf? name.name with
      | some index =>
        refine addType_then (.synonym index) fun larger found => ?_
        rw [Names.readType, found]
        rfl
      | none => exact .reject
  | .applied span name [] => by
    rw [TypeExpr.resolve.eq_def, Enter.type.eq_def]
    dsimp only
    cases Constructor.ofName? name.name <;> exact .reject
  | .applied span name (_ :: _ :: _) => by
    rw [TypeExpr.resolve.eq_def, Enter.type.eq_def]
    dsimp only
    cases Constructor.ofName? name.name <;> exact .reject
  | .applied span name [arg] => by
    rw [TypeExpr.resolve.eq_def, Enter.type.eq_def, TypeExpr.identIds, TypeExpr.identIdsOf, TypeExpr.identIdsOf,
      append_nil]
    dsimp only
    cases Constructor.ofName? name.name with
    | none => exact .reject
    | some constructor =>
      have step : Enters scopes ((Pure.pure () : ResolveM Unit) >>= fun _ =>
            lift (arg.resolve aliases >>= fun arg => Pure.pure ( Annotation.app span constructor arg)))
          (Unmoved scopes)
          (Enter.addType name (.con constructor) >>= fun _ => Enter.type aliases arg)
          ([name.id] ++ arg.identIds) fun larger value => larger.readType (.applied span name [arg]) = .ok value := by
        refine (addType (.con constructor)).bind ?_
        rintro _ _ _ rfl
        rw [lift_bind]
        refine (type _ aliases arg).map (fun _ _ same => same) fun larger value read found => ?_
        rw [Names.readType, read, found]
        rfl
      exact step
  | .tuple span elements => by
    rw [TypeExpr.resolve, Enter.type, TypeExpr.identIds, lift_bind]
    refine (types scopes aliases elements).map (fun _ _ same => same) fun larger value read => ?_
    rw [Names.readType, read]
    rfl
  | .function span params result => by
    rw [TypeExpr.resolve, Enter.type, TypeExpr.identIds, lift_bind]
    refine (types scopes aliases params).bind ?_
    rintro params' _ _ rfl
    rw [lift_bind]
    refine (type scopes aliases result).map (fun _ _ same => same) fun larger value read first => ?_
    rw [Names.readType, first, read]
    rfl
theorem types (scopes : Scopes) (aliases : List String) : ∀ types : List TypeExpr,
    Enters scopes (lift (TypeExpr.resolveAll aliases types)) (Unmoved scopes) (Enter.types aliases types)
      (TypeExpr.identIdsOf types) fun larger value => larger.readTypes types = .ok value
  | [] => by
    rw [TypeExpr.resolveAll, Enter.types, TypeExpr.identIdsOf]
    exact .pure rfl fun _ => rfl
  | first :: rest => by
    rw [TypeExpr.resolveAll, Enter.types, TypeExpr.identIdsOf, lift_bind]
    refine (type scopes aliases first).bind ?_
    rintro first' _ _ rfl
    rw [lift_bind]
    refine (types scopes aliases rest).map (fun _ _ same => same) fun larger value read first => ?_
    rw [Names.readTypes, first, read]
    rfl
end

/-! ### Expressions -/

theorem hint (scopes : Scopes) (aliases : List String) (hint : Option TypeExpr) :
    Enters scopes (Resolve.hint aliases hint) (Unmoved scopes) (Enter.hint aliases hint)
      (TypeExpr.identIdsOf? hint) fun larger value => larger.readHint hint = .ok value := by
  cases hint with
  | none => exact .pure rfl fun _ => rfl
  | some here =>
    refine (type scopes aliases here).map (fun _ _ same => same) fun larger value read => ?_
    rw [Names.readHint, read]
    rfl

theorem binder (some : scopes ≠ []) (aliases : List String) (binder : Binder Ident TypeExpr) :
    Enters scopes (Resolve.binder aliases scopes binder) MovedTo (Enter.binder aliases binder)
      binder.identIds fun larger value => larger.readBinder binder = .ok value.1 := by
  refine (hint scopes aliases binder.hint).bind ?_
  rintro hint' _ _ rfl
  refine (declare_of_ne some binder.name).map (fun _ _ same => same) fun larger value read first => ?_
  rw [Names.readBinder, first, read]
  rfl

theorem binders (some : scopes ≠ []) (aliases : List String) (binders : List (Binder Ident TypeExpr)) :
    Enters scopes (Resolve.binders aliases scopes binders) MovedTo (Enter.binders aliases binders)
      (Binder.identIdsOf binders) fun larger value => larger.readBinders binders = .ok value.1 := by
  induction binders generalizing scopes with
  | nil => exact .pure rfl fun _ => rfl
  | cons first rest ih =>
    refine (binder some aliases first).bind ?_
    rintro first' _ keeps rfl
    refine (ih (keeps.2 some)).map (fun _ _ same => same) fun larger value read first => ?_
    rw [Names.readBinders, first, read]
    rfl

def Expr (aliases : List String) (expr : MiddleEnd.Expr Ident Mention TypeExpr Span) : Prop :=
  ∀ scopes, Enters scopes (Resolve.expr aliases scopes expr) (Unmoved scopes) (Enter.expr aliases expr)
    expr.identIds fun larger value => larger.readExpr expr = .ok value

theorem exprs {list : List (MiddleEnd.Expr Ident Mention TypeExpr Span)}
    (all : ∀ expr ∈ list, Expr aliases expr) (scopes : Scopes) :
    Enters scopes (Resolve.exprs aliases scopes list) (Unmoved scopes) (Enter.exprs aliases list)
      (MiddleEnd.Expr.identIdsOf list) fun larger value => larger.readExprs list = .ok value := by
  induction list with
  | nil => exact .pure rfl fun _ => rfl
  | cons first rest ih =>
    obtain ⟨first_enters, rest_enters⟩ := forall_mem_cons.mp all
    refine (first_enters scopes).bind ?_
    rintro first' _ _ rfl
    refine (ih rest_enters).map (fun _ _ same => same) fun larger value read first => ?_
    rw [Names.readExprs, first, read]
    rfl

theorem expr (aliases : List String) (expr : MiddleEnd.Expr Ident Mention TypeExpr Span) :
    Expr aliases expr := by
  induction expr using MiddleEnd.Expr.induction with
  | lit | none => exact fun _ => .pure rfl fun _ => rfl
  | var span mention =>
    intro scopes
    refine (target scopes mention.ident).map (fun _ _ same => same) fun larger value read => ?_
    rw [Names.readExpr, read]
    rfl
  | unary _ _ _ ih | arrayLen _ _ ih | some _ _ ih =>
    intro scopes
    refine (ih scopes).map (fun _ _ same => same) fun larger value read => ?_
    rw [Names.readExpr, read]
    rfl
  | tuple _ _ ih | arrayLit _ _ ih =>
    intro scopes
    refine (exprs ih scopes).map (fun _ _ same => same) fun larger value read => ?_
    rw [Names.readExpr, read]
    rfl
  | binary _ _ _ _ first_ih second_ih | arrayMake _ _ _ first_ih second_ih | arrayGet _ _ _ first_ih second_ih =>
    intro scopes
    refine (first_ih scopes).bind ?_
    rintro _ _ _ rfl
    refine (second_ih scopes).map (fun _ _ same => same) fun larger value read first => ?_
    rw [Names.readExpr, first, read]
    rfl
  | apply _ _ _ callee_ih args_ih =>
    intro scopes
    refine (callee_ih scopes).bind ?_
    rintro _ _ _ rfl
    refine (exprs args_ih scopes).map (fun _ _ same => same) fun larger value read first => ?_
    rw [Names.readExpr, first, read]
    rfl
  | typed _ _ hint ih =>
    intro scopes
    refine (ih scopes).bind ?_
    rintro _ _ _ rfl
    refine (type scopes aliases hint).map (fun _ _ same => same) fun larger value read first => ?_
    rw [Names.readExpr, first, read]
    rfl
  | cond _ _ _ _ first_ih second_ih third_ih | arraySet _ _ _ _ first_ih second_ih third_ih =>
    intro scopes
    refine (first_ih scopes).bind ?_
    rintro _ _ _ rfl
    refine (second_ih scopes).bind ?_
    rintro _ _ _ rfl
    refine (third_ih scopes).map (fun _ _ same => same) fun larger value read second first => ?_
    rw [Names.readExpr, first, second, read]
    rfl
  | letIn span name bound body bound_ih body_ih =>
    intro scopes
    refine (bound_ih scopes).bind ?_
    rintro bound' _ _ rfl
    refine .inScope ?_
    refine (binder (cons_ne_nil _ _) aliases name).bind ?_
    rintro ⟨name', inner⟩ _ _ rfl
    refine (body_ih inner).map (fun _ _ _ => trivial) fun larger value read second first => ?_
    rw [Names.readExpr, first, second, read]
    rfl
  | letTuple span names bound body bound_ih body_ih =>
    intro scopes
    refine (bound_ih scopes).bind ?_
    rintro bound' _ _ rfl
    refine .inScope ?_
    refine (binders (cons_ne_nil _ _) aliases names).bind ?_
    rintro ⟨names', inner⟩ _ _ rfl
    refine (body_ih inner).map (fun _ _ _ => trivial) fun larger value read second first => ?_
    rw [Names.readExpr, first, second, read]
    rfl
  | letRec span name params result body rest body_ih rest_ih =>
    intro scopes
    refine .inScope ?_
    refine (declare name).bind ?_
    rintro ⟨name', outer⟩ _ _ rfl
    -- the body of the function is resolved in a scope of its own, before the rest
    have step : (do
        let bound ← Resolve.binders aliases ([] :: outer) params
        let result ← Resolve.hint aliases result
        let body ← Resolve.expr aliases bound.2 body
        return MiddleEnd.Expr.letRec span name' bound.1 result body (← Resolve.expr aliases outer rest)) = (do
        let parts ← (do
          let bound ← Resolve.binders aliases ([] :: outer) params
          let result ← Resolve.hint aliases result
          let body ← Resolve.expr aliases bound.2 body
          return (bound.1, result, body))
        return MiddleEnd.Expr.letRec span name' parts.1 parts.2.1 parts.2.2
          (← Resolve.expr aliases outer rest)) := by
      simp only [bind_assoc, pure_bind]
    refine Eq.mpr (congrArg (Enters outer · _ _ _ _) step) ?_
    have function : Enters outer (do
          let bound ← Resolve.binders aliases ([] :: outer) params
          let result ← Resolve.hint aliases result
          let body ← Resolve.expr aliases bound.2 body
          return (bound.1, result, body))
        (Unmoved outer) (Enter.inScope do
          Enter.binders aliases params
          Enter.hint aliases result
          Enter.expr aliases body)
        (Binder.identIdsOf params ++ (TypeExpr.identIdsOf? result ++ body.identIds)) fun larger value =>
          larger.readBinders params = .ok value.1 ∧ larger.readHint result = .ok value.2.1 ∧
            larger.readExpr body = .ok value.2.2 := by
      refine .inScope ?_
      refine (binders (cons_ne_nil _ _) aliases params).bind ?_
      rintro ⟨params', inner⟩ _ _ rfl
      refine (hint inner aliases result).bind ?_
      rintro result' _ _ rfl
      exact (body_ih inner).map (fun _ _ _ => trivial) fun larger value read second first =>
        ⟨first, second, read⟩
    refine function.bind ?_
    rintro ⟨params', result', body'⟩ _ _ rfl
    refine (rest_ih outer).map (fun _ _ _ => trivial) fun larger value read parts first => ?_
    rw [Names.readExpr, first, parts.1, parts.2.1, parts.2.2, read]
    rfl
  | matchOption span target name someArm noneArm target_ih some_ih none_ih =>
    intro scopes
    refine (target_ih scopes).bind ?_
    rintro target' _ _ rfl
    have step : (do
        let bound ← Resolve.binder aliases ([] :: scopes) name
        let someArm ← Resolve.expr aliases bound.2 someArm
        return MiddleEnd.Expr.matchOption span target' bound.1 someArm
          (← Resolve.expr aliases scopes noneArm)) = (do
        let parts ← (do
          let bound ← Resolve.binder aliases ([] :: scopes) name
          let someArm ← Resolve.expr aliases bound.2 someArm
          return (bound.1, someArm))
        return MiddleEnd.Expr.matchOption span target' parts.1 parts.2
          (← Resolve.expr aliases scopes noneArm)) := by
      simp only [bind_assoc, pure_bind]
    refine Eq.mpr (congrArg (Enters scopes · _ _ _ _) step) ?_
    have present : Enters scopes (do
          let bound ← Resolve.binder aliases ([] :: scopes) name
          let someArm ← Resolve.expr aliases bound.2 someArm
          return (bound.1, someArm))
        (Unmoved scopes) (Enter.inScope do
          Enter.binder aliases name
          Enter.expr aliases someArm)
        (name.identIds ++ someArm.identIds) fun larger value =>
          larger.readBinder name = .ok value.1 ∧ larger.readExpr someArm = .ok value.2 := by
      refine .inScope ?_
      refine (binder (cons_ne_nil _ _) aliases name).bind ?_
      rintro ⟨name', inner⟩ _ _ rfl
      exact (some_ih inner).map (fun _ _ _ => trivial) fun larger value read first => ⟨first, read⟩
    refine present.bind ?_
    rintro ⟨name', someArm'⟩ _ _ rfl
    refine (none_ih scopes).map (fun _ _ same => same) fun larger value read parts first => ?_
    rw [Names.readExpr, first, parts.1, parts.2, read]
    rfl

/-! ### Programs -/

theorem declarations (scopes : Scopes) (aliases before : List String) (list : List (Declaration TypeExpr)) :
    Enters scopes (lift (Resolve.declarations aliases before list)) (Unmoved scopes)
      (Enter.declarations aliases before list) (list.flatMap fun entry => entry.type.identIds)
      fun larger value => larger.readDeclarations list = .ok value := by
  induction list generalizing before with
  | nil => exact .pure rfl fun _ => rfl
  | cons first rest ih =>
    rw [Resolve.declarations, lift_bind, flatMap_cons]
    refine (type scopes aliases first.type).bind ?_
    rintro type' _ _ rfl
    by_cases taken : before.contains first.name.name = true
    · rw [if_pos taken, if_pos taken]
      exact fun _ _ _ _ _ => rfl
    · rw [if_neg taken, if_neg taken]
      dsimp only
      rw [lift_bind]
      refine (ih (first.name.name :: before)).map (fun _ _ same => same) fun larger value read first => ?_
      rw [Names.readDeclarations, first, read]
      rfl

end Enters

namespace Surface

def identIds (program : Surface) : List Nat :=
  (program.aliases.flatMap fun entry => entry.type.identIds) ++
    ((program.externals.flatMap fun entry => entry.type.identIds) ++ program.body.identIds)

/-- No two identifiers whose meaning is entered have one number. -/
def Numbered (program : Surface) : Prop := program.identIds.Nodup

instance (program : Surface) : Decidable program.Numbered :=
  inferInstanceAs (Decidable program.identIds.Nodup)

end Surface

end MiddleEnd
