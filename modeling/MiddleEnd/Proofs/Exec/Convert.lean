import MiddleEnd.Proofs.Code.Free
import MiddleEnd.Proofs.Exec.Forward

/-! Closure conversion keeps the meaning of modules. A closure holds what is free in the function, so its
body finds all that it reads; a known function reads nothing from around it, so its label is enough. -/

namespace MiddleEnd

open List

variable {captures : Captures} {whole : Code} {names : List String} {module : Module}
  {definition : Definition} {name : String} {args : List (Data Closure)} {args' : List (Data Made)}
  {instr : Instr Block} {rest : Code}

theorem Code.strip_append (captures : Captures) (front back : Code) :
    strip captures (front ++ back) = strip captures front ++ strip captures back := by
  induction front with
  | nil => rfl
  | cons instr _ ih =>
    obtain ⟨id, _, _, value⟩ := instr
    cases value with
    | op => simp only [cons_append, strip, ih]
    | branch => simp only [cons_append, strip, ih]
    | function =>
      simp only [cons_append, strip, ih]
      split <;> rfl

theorem Code.exists_strip_last (captures : Captures) (front : Code) {last : Instr Block}
    (plain : last.value.isFunction = false) :
    ∃ last', last'.name = last.name ∧
      strip captures (front ++ [last]) = strip captures front ++ [last'] := by
  obtain ⟨id, name, span, value⟩ := last
  cases value with
  | op op => exact ⟨⟨id, name, span, .op (op.convert captures)⟩, rfl, strip_append captures front _⟩
  | branch test yes no =>
    exact ⟨⟨id, name, span, .branch test (yes.strip captures) (no.strip captures)⟩, rfl,
      strip_append captures front _⟩
  | function => cases plain

theorem Captures.Exact.callKind_eq (exact : captures.Exact whole) (callee : String) :
    captures.callKind callee = if callee ∈ captures.known then .direct else .closure := by
  unfold Captures.callKind
  split
  · next found => rw [if_neg (exact.keys found).2]
  · simp

theorem Module.WellFormed.find?_toplevel (formed : module.WellFormed)
    (mem : definition ∈ Code.definitions module.entry.body) :
    ∃ entry, module.converted.toplevel.find? definition.name = some entry ∧
      entry.params = definition.params ∧ entry.body = definition.body.strip module.entry.captures := by
  obtain ⟨entries, made, defined, names⟩ := module.exists_entries
  have image : definition.strip module.entry.captures ∈ entries.map Toplevel.definition := by
    rw [defined]
    exact mem_map_of_mem mem
  obtain ⟨⟨name, entry⟩, there, same⟩ := mem_map.mp image
  simp only [Toplevel.definition, Definition.strip, Definition.mk.injEq] at same
  obtain ⟨rfl, params, body⟩ := same
  refine ⟨entry, ?_, params, body⟩
  rw [made, NameMap.find?_ofList (names ▸ formed.names_nodup)]
  exact there

inductive Labels (known : String → Closure → Prop) : String × Option (Data Closure) → Prop
  | mk {name : String} {code : Closure} (holds : known name code) :
    Labels known (name, some (.function code))

section

variable (captures : Captures) (whole : Code)

inductive KnownClosure : String → Closure → Prop
  | mk {definition : Definition} {scope : List String} {env : Env Closure}
    (stands : Code.Stands whole scope definition) (known : definition.name ∈ captures.known)
    (labels : ∀ label ∈ scope, label ∈ captures.known → Labels KnownClosure (label, env.lookup label)) :
    KnownClosure definition.name (.mk definition.name definition.params definition.body env)

inductive Converts : Closure → Made → Prop
  | mk {definition : Definition} {scope names : List String} {env : Env Closure} {held : Env Made}
    (stands : Code.Stands whole scope definition)
    (found : captures.closures.find? definition.name = some names)
    (labels : ∀ label ∈ scope, label ∈ captures.known →
      Labels (KnownClosure captures whole) (label, env.lookup label))
    (bound : ∀ name ∈ names, env.lookup name ≠ none)
    (seen : ∀ name ∈ names, Option.Rel (Data.Rel Converts) (env.lookup name) (held.lookup name)) :
    Converts (.mk definition.name definition.params definition.body env) (.mk definition.name held)

structure Carries (scope names : List String) (env : Env Closure) (env' : Env Made) : Prop where
  visible : ∀ name ∈ names, name ∈ scope
  bound : ∀ name ∈ names, env.lookup name ≠ none
  seen : ∀ name ∈ names,
    Option.Rel (Data.Rel (Converts captures whole)) (env.lookup name) (env'.lookup name)
  labels : ∀ label ∈ scope, label ∈ captures.known →
    Labels (KnownClosure captures whole) (label, env.lookup label)

end

variable {scope : List String} {env : Env Closure} {env' : Env Made}

namespace Carries

theorem cons (carries : Carries captures whole scope names env env') {value : Data Closure}
    {value' : Data Made} (values : Data.Rel (Converts captures whole) value value')
    (unknown : name ∉ captures.known) :
    Carries captures whole (name :: scope) (name :: names) ((name, value) :: env)
      ((name, value') :: env') := by
  refine ⟨fun other mem => ?_, fun other mem => ?_, fun other mem => ?_, fun label mem known => ?_⟩
  · exact (mem_cons.mp mem).elim (· ▸ mem_cons_self)
      fun mem => .tail _ (carries.visible other mem)
  · rw [Env.lookup_cons]
    split
    · exact nofun
    · next differs => exact carries.bound other ((mem_cons.mp mem).resolve_left differs)
  · rw [Env.lookup_cons, Env.lookup_cons]
    split
    · exact .some values
    · next differs => exact carries.seen other ((mem_cons.mp mem).resolve_left differs)
  · have differs : label ≠ name := fun same => unknown (same ▸ known)
    rw [Env.lookup_cons, if_neg differs]
    exact carries.labels label ((mem_cons.mp mem).resolve_left differs) known

theorem label (carries : Carries captures whole scope names env env') {code : Closure}
    (fresh : name ∉ scope) (known : KnownClosure captures whole name code) :
    Carries captures whole (name :: scope) names ((name, .function code) :: env) env' := by
  have past {other : String} (mem : other ∈ scope) :
      List.lookup other ((name, .function code) :: env) = env.lookup other := by
    rw [Env.lookup_cons, if_neg]
    exact fun same => fresh (same ▸ mem)
  refine ⟨fun other mem => ?_, fun other mem => ?_, fun other mem => ?_, fun label mem is_known => ?_⟩
  · exact .tail _ (carries.visible other mem)
  · rw [past (carries.visible other mem)]
    exact carries.bound other mem
  · rw [past (carries.visible other mem)]
    exact carries.seen other mem
  · rw [Env.lookup_cons]
    split
    · next same =>
      rw [same]
      exact .mk known
    · next differs =>
      exact carries.labels label ((mem_cons.mp mem).resolve_left differs) is_known

theorem params {label : String} (carries : Carries captures whole (label :: scope) names env env')
    {params : List String} (unknown : ∀ param ∈ params, param ∉ captures.known)
    (each : Forall₂ (Data.Rel (Converts captures whole)) args args')
    (same_length : args.length = params.length) :
    Carries captures whole (label :: params ++ scope) (params ++ names) (params.zip args ++ env)
      (params.zip args' ++ env') := by
  have around {name : String} (mem : name ∈ params ++ names) (other : name ∉ params) : name ∈ names :=
    (mem_append.mp mem).resolve_left other
  refine ⟨fun name mem => ?_, fun name mem => ?_, fun name mem => ?_, fun name mem known => ?_⟩
  · rcases mem_append.mp mem with param | here
    · simp [param]
    · rcases mem_cons.mp (carries.visible name here) with same | outer
      · simp [same]
      · simp [outer]
  · by_cases param : name ∈ params
    · exact Env.lookup_zip_ne_none same_length param
    · rw [Env.lookup_zip_of_not_mem param]
      exact carries.bound name (around mem param)
  · exact Env.rel_lookup_zip each same_length fun other => carries.seen name (around mem other)
  · have other : name ∉ params := fun param => unknown name param known
    rw [Env.lookup_zip_of_not_mem other]
    refine carries.labels name ?_ known
    simpa [other] using mem

end Carries

theorem Captures.mem_of_free_rest (kept : ∀ name ∈ captures.free (instr :: rest), name ∈ names) :
    ∀ name ∈ captures.free rest, name ∈ instr.name :: names := by
  intro name free
  by_cases same : name = instr.name
  · exact same ▸ mem_cons_self
  · refine mem_cons_of_mem _ (kept name ?_)
    obtain ⟨id, _, _, value⟩ := instr
    cases value <;> simp_all [Code.free]

section

variable (exact : captures.Exact whole)
include exact

theorem Captures.Exact.not_known_of_instr (nodup : (Code.defs whole).Nodup)
    (inside : instr ∈ Code.instrs whole)
    (plain : instr.value.isFunction = false) :
    instr.name ∉ captures.known := by
  intro known
  obtain ⟨_, mem, named⟩ := mem_map.mp (exact.known instr.name known)
  obtain ⟨_, there, same, _, shape⟩ := Code.mem_definitions.mp mem
  rw [Code.eq_of_name nodup inside there (named.symm.trans same.symm), shape] at plain
  cases plain

theorem Captures.Exact.not_known_of_param (nodup : (Code.defs whole).Nodup)
    (mem : definition ∈ Code.definitions whole) {param : String}
    (own : param ∈ definition.params) : param ∉ captures.known := by
  intro known
  obtain ⟨other, there, rfl⟩ := mem_map.mp (exact.known param known)
  obtain ⟨instr, inside, _, _, shape⟩ := Code.mem_definitions.mp mem
  obtain ⟨_, there, same, _⟩ := Code.mem_definitions.mp there
  have bound : other.name ∈ instr.value.params := by rwa [shape]
  exact Code.name_ne_param nodup inside there bound same

theorem Captures.Exact.mem_of_free_body (mem : definition ∈ Code.definitions whole) {held : List String}
    (found : captures.closures.find? definition.name = some held) :
    ∀ name ∈ captures.free definition.body.body, name ∈ definition.params ++ definition.name :: held := by
  intro name free
  by_cases param : name ∈ definition.params
  · exact mem_append_left _ param
  · refine mem_append_right _ (mem_cons.mpr ?_)
    by_cases own : name = definition.name
    · exact .inl own
    · exact .inr ((exact.mem_held mem found).mpr ⟨free, param, own⟩)

theorem Captures.Exact.mem_of_free_known (stands : Code.Stands whole scope definition)
    (known : definition.name ∈ captures.known) :
    ∀ name ∈ captures.free definition.body.body, name ∈ definition.params ++ [] := by
  intro name free
  by_contra absent
  rw [append_nil] at absent
  have own : name ≠ definition.name := fun same =>
    exact.not_known_of_free stands.placed.inside free (same ▸ known)
  have held := Definition.mem_captures.mpr ⟨free, absent, own⟩
  rw [exact.empty stands.member known] at held
  cases held

end

namespace Exec

variable {host : Host} {enter : Closure → List (Data Closure) → RunM Closure (Data Closure)}
  {enter' : String → Env Made → List (Data Made) → RunM Made (Data Made)}

def Directs (captures : Captures) (whole : Code)
    (enter : Closure → List (Data Closure) → RunM Closure (Data Closure))
    (enter' : String → Env Made → List (Data Made) → RunM Made (Data Made)) : Prop :=
  ∀ label code, KnownClosure captures whole label code → ∀ args args',
    List.Forall₂ (Data.Rel (Converts captures whole)) args args' →
      Agree (Converts captures whole) (Data.Rel (Converts captures whole)) (enter code args)
        (enter' label [] args')

theorem agree_readAll_names (carries : Carries captures whole scope names env env') {read : List String}
    (there : ∀ name ∈ read, name ∈ names) :
    Agree (Converts captures whole) (Forall₂ (Data.Rel (Converts captures whole)))
      (readAll env read) (readAll env' read) := by
  have agree := agree_readAll id fun name mem => carries.seen name (there name mem)
  rwa [map_id] at agree

theorem agree_call_convert (exact : captures.Exact whole)
    (enters : Enters (Converts captures whole) enter (Converted.convention enter').enter)
    (directs : Directs captures whole enter enter')
    (carries : Carries captures whole scope names env env') {callee : String} {args : List String}
    (fits : callee ∈ scope)
    (reads : ∀ name ∈ Op.reads captures.known (.call .direct callee args), name ∈ names) :
    Agree (Converts captures whole) (Data.Rel (Converts captures whole))
      (Exec.op host (Closure.convention host enter) env (.call .direct callee args))
      (Exec.op host (Converted.convention enter') env'
        (.call (captures.callKind callee) callee args)) := by
  rw [exact.callKind_eq]
  by_cases known : callee ∈ captures.known
  · have contained : captures.known.contains callee = true := contains_iff_mem.mpr known
    simp only [Op.reads, contained, Bool.or_true, if_true] at reads
    rw [if_pos known]
    refine .bind (agree_readAll_names carries reads) fun values values' each => ?_
    have labelled := carries.labels callee fits known
    simp only [Closure.convention, read]
    generalize env.lookup callee = found at labelled
    cases labelled with
    | mk holds =>
      simp only [orHalt, pure_bind, callValue]
      exact directs _ _ holds _ _ each
  · have absent : captures.known.contains callee = false := by simpa using known
    simp only [Op.reads, absent, reduceCtorEq, decide_false, Bool.or_false, Bool.false_eq_true,
      if_false, mem_cons, forall_eq_or_imp] at reads
    rw [if_neg known]
    refine .bind (agree_readAll_names carries reads.2) fun values values' each => ?_
    refine .bind (agree_read (carries.seen callee reads.1)) fun _ _ callees => ?_
    exact agree_callValue host enters callees each

theorem agree_op_convert (exact : captures.Exact whole)
    (enters : Enters (Converts captures whole) enter (Converted.convention enter').enter)
    (directs : Directs captures whole enter enter')
    (carries : Carries captures whole scope names env env') {op : Op} (lawful : Value.Lawful (.op op))
    (fits : ∀ operand ∈ op.operands, operand ∈ scope)
    (reads : ∀ name ∈ op.reads captures.known, name ∈ names) :
    Agree (Converts captures whole) (Data.Rel (Converts captures whole))
      (Exec.op host (Closure.convention host enter) env op)
      (Exec.op host (Converted.convention enter') env' (op.convert captures)) := by
  by_cases is_call : ∃ kind callee args, op = .call kind callee args
  · obtain ⟨kind, callee, args, rfl⟩ := is_call
    cases kind with
    | closure => exact absurd rfl lawful
    | external =>
      refine .bind (agree_readAll_names carries reads) fun values values' each => ?_
      exact agree_callExternal host callee each
    | direct =>
      exact agree_call_convert exact enters directs carries (fits callee (.head _)) reads
  · have basic : op.Basic := by
      cases op with
      | call kind callee args => exact is_call ⟨kind, callee, args, rfl⟩
      | closure => exact lawful
      | _ => trivial
    have same_reads : op.reads captures.known = op.operands := by
      cases op with
      | call => cases basic
      | _ => rfl
    rw [Hoist.convert_of_indirect fun callee args same => is_call ⟨_, callee, args, same⟩,
      op_eq_compute host _ env basic, op_eq_compute host _ env' basic]
    rw [same_reads] at reads
    refine .bind (agree_readAll_names carries reads) fun values values' each => ?_
    exact agree_compute host op each

def Strips (host : Host) (captures : Captures) (whole : Code)
    (enter : Closure → List (Data Closure) → RunM Closure (Data Closure))
    (enter' : String → Env Made → List (Data Made) → RunM Made (Data Made)) (code : Code) : Prop :=
  ∀ (scope names : List String) (env : Env Closure) (env' : Env Made), Code.Placed whole scope code →
    (∀ name ∈ captures.free code, name ∈ names) → Carries captures whole scope names env env' →
      Agree (Converts captures whole)
        (Carries captures whole ((code.map Instr.name).reverse ++ scope)
          (((Code.strip captures code).map Instr.name).reverse ++ names))
        (Exec.code host (Closure.convention host enter) env code)
        (Exec.code host (Converted.convention enter') env' (Code.strip captures code))

theorem Strips.block {body : Code} (strips : Strips host captures whole enter enter' body)
    (placed : Code.Placed whole scope body) (free : ∀ name ∈ captures.free body, name ∈ names)
    (carries : Carries captures whole scope names env env') {label : String}
    (ended : Block.Ended (.mk label body)) :
    Agree (Converts captures whole) (Data.Rel (Converts captures whole))
      (Exec.block host (Closure.convention host enter) env (.mk label body))
      (Exec.block host (Converted.convention enter') env' (.mk label (Code.strip captures body))) := by
  rw [Exec.block, Exec.block]
  refine .bind (strips _ _ _ _ placed free carries) fun _ _ carries => ?_
  obtain ⟨front, last, split, plain⟩ := ended
  obtain rfl : body = front ++ [last] := split
  obtain ⟨_, named, stripped⟩ := Code.exists_strip_last captures front plain
  rw [stripped] at carries ⊢
  rw [getLast?_concat, getLast?_concat]
  refine agree_read ?_
  rw [named]
  exact carries.seen last.name (by simp [named])

theorem exists_readAll (bound : ∀ name ∈ names, env'.lookup name ≠ none) :
    ∃ values, readAll env' names = pure values ∧
      ∀ name ∈ names, (names.zip values).lookup name = env'.lookup name := by
  induction names with
  | nil => exact ⟨[], rfl, nofun⟩
  | cons name _ ih =>
    obtain ⟨value, found⟩ := Option.ne_none_iff_exists'.mp (bound name (.head _))
    obtain ⟨values, ran, same⟩ := ih fun name mem => bound name (.tail _ mem)
    refine ⟨value :: values, ?_, fun other mem => ?_⟩
    · simp only [readAll, read, found, orHalt, ran, pure_bind]
    · rw [zip_cons_cons, Env.lookup_cons]
      split
      · next here => rw [here, found]
      · next differs => exact same other ((mem_cons.mp mem).resolve_left differs)

theorem strips_function (exact : captures.Exact whole) {id : Nat} {label : String} {span : Span}
    {params : List String} {body : Code} {recursive : Bool}
    (ih : Strips host captures whole enter enter' rest) :
    Strips host captures whole enter enter'
      (⟨id, name, span, .function params (.mk label body) recursive⟩ :: rest) := by
  intro scope names env env' placed free carries
  have stands := placed.stands
  have fresh : name ∉ scope := stands.fresh name (.head _)
  have order : ((⟨id, name, span, .function params (.mk label body) recursive⟩ :: rest : Code).map
      Instr.name).reverse ++ scope = (rest.map Instr.name).reverse ++ name :: scope := by simp
  rw [order, Exec.code, Code.strip]
  simp only [Closure.convention, pure_bind]
  cases found : captures.closures.find? name with
  | none =>
    -- nothing is left of the function, and its label is never read as a value
    have known : name ∈ captures.known := by
      by_contra unknown
      rw [exact.closure stands.member unknown] at found
      cases found
    refine ih _ _ _ _ placed.rest (fun other later => ?_)
      (carries.label fresh (.mk stands known carries.labels))
    rcases mem_cons.mp (Captures.mem_of_free_rest free other later) with rfl | kept
    · exact absurd known (exact.not_known_of_free placed.rest.inside later)
    · exact kept
  | some held =>
    have unknown : name ∉ captures.known := (exact.keys (by rw [NameMap.contains, found]; rfl)).2
    -- what the closure holds is free here, so it has been kept
    have held_free (other : String) (mem : other ∈ held) : other ∈ names := by
      have differs := ((exact.mem_held stands.member found).mp mem).2.2
      refine free other (mem_filter.mpr ⟨mem_append_left _ ?_, bne_iff_ne.mpr differs⟩)
      rw [if_neg (by simpa using unknown), found]
      exact mem
    have bound (other : String) (mem : other ∈ held) : env'.lookup other ≠ none := by
      have values := carries.seen other (held_free other mem)
      obtain ⟨value, here⟩ := Option.ne_none_iff_exists'.mp (carries.bound other (held_free other mem))
      rw [here] at values
      obtain ⟨_, here', _⟩ := exists_of_rel_some values
      rw [here']
      exact Option.some_ne_none _
    obtain ⟨values, ran, same⟩ := exists_readAll bound
    have functions : Data.Rel (Converts captures whole)
        (.function (.mk name params (.mk label body) env)) (.function (.mk name (held.zip values))) := by
      refine .function (.mk stands found carries.labels
        (fun other mem => carries.bound other (held_free other mem)) fun other mem => ?_)
      rw [same other mem]
      exact carries.seen other (held_free other mem)
    have order' : ((⟨id, name, span, .op (.closure held name)⟩ :: Code.strip captures rest : Code).map
        Instr.name).reverse ++ names =
          ((Code.strip captures rest).map Instr.name).reverse ++ name :: names := by simp
    simp only [order', Exec.code, Exec.op, ran, pure_bind, Converted.convention]
    exact ih _ _ _ _ placed.rest (Captures.mem_of_free_rest free) (carries.cons functions unknown)

theorem strips (exact : captures.Exact whole) (nodup : (Code.defs whole).Nodup)
    (lawful : ∀ instr ∈ Code.instrs whole, instr.value.Lawful)
    (enters : Enters (Converts captures whole) enter (Converted.convention enter').enter)
    (directs : Directs captures whole enter enter') (code : Code) :
    Strips host captures whole enter enter' code := by
  induction code using Code.induction with
  | nil =>
    intro _ _ _ _ _ _ carries
    exact .pure carries
  | @op _ name _ op rest ih =>
    intro scope names _ _ placed free carries
    have inside := placed.inside (.head _)
    have unknown : name ∉ captures.known := exact.not_known_of_instr nodup inside rfl
    have fresh : name ∉ scope := fun mem => placed.apart name mem (by simp [Code.defs_op])
    have reads (other : String) (read : other ∈ op.reads captures.known) : other ∈ names := by
      have visible := placed.fits.1 other (Op.mem_operands_of_reads read)
      have differs : other ≠ name := fun same => fresh (same ▸ visible)
      exact free other (mem_filter.mpr ⟨mem_append_left _ read, bne_iff_ne.mpr differs⟩)
    simp only [map_cons, reverse_cons, append_assoc, singleton_append, Exec.code, Code.strip]
    refine .bind (agree_op_convert exact enters directs carries (lawful _ inside) placed.fits.1 reads)
      fun value value' values => ?_
    exact ih _ _ _ _ placed.rest (Captures.mem_of_free_rest free) (carries.cons values unknown)
  | @branch _ name _ test _ yes _ no rest yes_ih no_ih ih =>
    intro scope names _ _ placed free carries
    have inside := placed.inside (.head _)
    have unknown : name ∉ captures.known := exact.not_known_of_instr nodup inside rfl
    have fresh : name ∉ scope := fun mem => placed.apart name mem (by simp [Code.defs_branch])
    have kept (other : String) (visible : other ∈ scope)
        (read : other = test ∨ other ∈ captures.free yes ∨ other ∈ captures.free no) : other ∈ names := by
      have differs : other ≠ name := fun same => fresh (same ▸ visible)
      refine free other (mem_filter.mpr ⟨?_, bne_iff_ne.mpr differs⟩)
      simp only [Code.blockFree, mem_cons, mem_append]
      exact read.imp_right .inl
    have yes_placed := placed.arm (.inl rfl)
    have no_placed := placed.arm (.inr rfl)
    obtain ⟨yes_ended, no_ended⟩ := lawful _ inside
    simp only [map_cons, reverse_cons, append_assoc, singleton_append, Exec.code,
      Code.strip, Block.strip]
    refine .bind (agree_read (carries.seen test (kept test placed.fits.1 (.inl rfl)))) fun _ _ tests => ?_
    have yes_agrees := yes_ih.block yes_placed (fun other here =>
      kept other (exact.mem_of_free yes_placed.inside yes_placed.fits here) (.inr (.inl here))) carries yes_ended
    have no_agrees := no_ih.block no_placed (fun other here =>
      kept other (exact.mem_of_free no_placed.inside no_placed.fits here) (.inr (.inr here))) carries no_ended
    refine .bind (agree_choose tests yes_agrees no_agrees) fun value value' values => ?_
    exact ih _ _ _ _ placed.rest (Captures.mem_of_free_rest free) (carries.cons values unknown)
  | function body_ih ih => exact strips_function exact ih

theorem Strips.body (exact : captures.Exact whole) (nodup : (Code.defs whole).Nodup)
    (lawful : ∀ instr ∈ Code.instrs whole, instr.value.Lawful)
    (strips : Strips host captures whole enter enter' definition.body.body)
    (stands : Code.Stands whole scope definition)
    (carries : Carries captures whole (definition.name :: scope) names env env')
    (free : ∀ name ∈ captures.free definition.body.body, name ∈ definition.params ++ names)
    (each : Forall₂ (Data.Rel (Converts captures whole)) args args')
    (same_length : args.length = definition.params.length) :
    Agree (Converts captures whole) (Data.Rel (Converts captures whole))
      (Exec.block host (Closure.convention host enter) (definition.params.zip args ++ env) definition.body)
      (Exec.block host (Converted.convention enter') (definition.params.zip args' ++ env')
        (definition.body.strip captures)) := by
  obtain ⟨name, params, _, body⟩ := definition
  obtain ⟨instr, inside, _, _, shape⟩ := Code.mem_definitions.mp stands.member
  have ended := lawful instr inside
  rw [shape] at ended
  exact strips.block stands.placed free
    (carries.params (fun _ => exact.not_known_of_param nodup stands.member) each same_length) ended

theorem enters_converted (formed : module.WellFormed) (fuel : Nat) :
    Enters (Converts module.entry.captures module.entry.body) (Closure.enter host fuel)
        (Converted.convention (module.converted.enter host fuel)).enter ∧
      Directs module.entry.captures module.entry.body (Closure.enter host fuel)
        (module.converted.enter host fuel) := by
  have exact := formed.exact
  induction fuel with
  | zero =>
    refine ⟨fun _ code' _ _ _ _ => ?_, fun _ _ _ _ _ _ => .halt .timeout⟩
    obtain ⟨function, held⟩ := code'
    exact .halt .timeout
  | succ fuel ih =>
    have strips (code : Code) : Strips host module.entry.captures module.entry.body
        (Closure.enter host fuel) (module.converted.enter host fuel) code :=
      strips exact formed.defs_nodup formed.lawful ih.1 ih.2 code
    constructor
    · intro code code' codes args args' each
      have selves := Data.Rel.function codes
      obtain @⟨definition, scope, names, env, held, stands, found, labels, bound, seen⟩ := codes
      obtain ⟨entry, there, params, body⟩ := formed.find?_toplevel stands.member
      have unknown : definition.name ∉ module.entry.captures.known :=
        (exact.keys (by rw [NameMap.contains, found]; rfl)).2
      have visible (name : String) (mem : name ∈ names) : name ∈ scope := by
        obtain ⟨free, no_param, differs⟩ := (exact.mem_held stands.member found).mp mem
        simpa [no_param, differs] using exact.mem_of_free stands.placed.inside stands.placed.fits free
      have carries := Carries.cons ⟨visible, bound, seen, labels⟩ selves unknown
      simp only [Closure.enter, Converted.convention, Converted.enter, there, params, body,
        ← each.length_eq]
      split
      · next same_length =>
        exact (strips _).body exact formed.defs_nodup formed.lawful stands carries
          (exact.mem_of_free_body stands.member found) each same_length
      · exact .halt .stuck
    · intro label code holds args args' each
      have self := holds
      obtain @⟨definition, scope, env, stands, known, labels⟩ := holds
      obtain ⟨entry, there, params, body⟩ := formed.find?_toplevel stands.member
      have alone : Carries module.entry.captures module.entry.body scope [] env [] :=
        ⟨forall_mem_nil _, forall_mem_nil _, forall_mem_nil _, labels⟩
      have carries := alone.label (stands.fresh _ (.head _)) self
      simp only [Closure.enter, Converted.enter, there, params, body, ← each.length_eq]
      split
      · next same_length =>
        exact (strips _).body exact formed.defs_nodup formed.lawful stands carries
          (exact.mem_of_free_known stands known) each same_length
      · exact .halt .stuck

end Exec

theorem Module.WellFormed.run_converted (formed : module.WellFormed) (host : Host) (fuel : Nat) :
    module.converted.run host fuel = module.run host fuel := by
  have exact := formed.exact
  have strips : Exec.Strips host module.entry.captures module.entry.body (Closure.enter host fuel)
      (module.converted.enter host fuel) module.entry.body := by
    obtain ⟨enters, directs⟩ := Exec.enters_converted formed fuel
    exact Exec.strips exact formed.defs_nodup formed.lawful enters directs _
  have placed : Code.Placed module.entry.body [] module.entry.body :=
    ⟨List.Subset.refl _, formed.fits, formed.defs_nodup, nofun⟩
  have closed (name : String) (free : name ∈ module.entry.captures.free module.entry.body) : name ∈ [] :=
    exact.mem_of_free placed.inside placed.fits free
  have start : Carries module.entry.captures module.entry.body [] [] [] [] := ⟨nofun, nofun, nofun, nofun⟩
  have entry : module.converted.entry = module.entry.strip module.entry.captures :=
    (Block.convert_spec module.entry module.entry.captures).1
  have ended := formed.ended
  rw [Converted.run, Module.run, entry]
  obtain ⟨⟨_, body⟩, _⟩ := module
  exact (strips.block placed closed start ended).observe.symm

/-- Closure conversion keeps meaning: whatever the host and however deep calls may go, the converted
program ends the same as the module it is made from, leaves the same heap and calls the same externals. -/
theorem Surface.convert_keeps_meaning {program : Surface} (lexed : program.Lexed) {resolved : Resolved}
    {typed : Typed} {settings : Settings} (resolves : program.resolve = .ok resolved)
    (checks : resolved.check settings = .ok typed) :
    ∃ module, typed.lower = .ok module ∧
      ∀ host fuel, module.forward.converted.run host fuel = module.forward.run host fuel := by
  obtain ⟨module, lowered, raw⟩ := exists_lowered lexed resolves checks
  exact ⟨module, lowered, raw.wellFormed_forward.run_converted⟩

/-- `let rec add x = let rec more y = x + y in more in let rec same z = z in let f = add 1 in
emit (f (same 2))` -/
def Surface.partialSum : Surface :=
  let name (text : String) : Ident := ⟨text, default, 0⟩
  let var (text : String) (order : Nat) : Expr Ident Mention TypeExpr Span :=
    .var default ⟨name text, order⟩
  let int (value : Int) : Expr Ident Mention TypeExpr Span := .lit default (.int value)
  { body :=
      .letRec default (name "add") [⟨name "x", none⟩] none
        (.letRec default (name "more") [⟨name "y", none⟩] none
          (.binary default .add (var "x" 0) (var "y" 1)) (var "more" 2))
        (.letRec default (name "same") [⟨name "z", none⟩] none (var "z" 3)
          (.letIn default ⟨name "f", none⟩ (.apply default (var "add" 4) [int 1])
            (.apply default (var "emit" 5)
              [.apply default (var "f" 6) [.apply default (var "same" 7) [int 2]]]))) }

/-- Of three functions one becomes a closure, and the external is called. -/
theorem Surface.convert_keeps_meaning_partialSum : partialSum.Lexed ∧
    ∃ resolved typed module, partialSum.resolve = .ok resolved ∧
      resolved.check { seedBuiltins := false } = .ok typed ∧ typed.lower = .ok module ∧
      (module.forward.converted.toplevel.size, module.forward.converted.closures.size) = (3, 1) ∧
      (module.forward.run .agreeable 3).trace.map Request.name = ["emit"] ∧
      ∀ host fuel, module.forward.converted.run host fuel = module.forward.run host fuel := by
  have lexed : partialSum.Lexed := by decide +kernel
  obtain ⟨resolved, typed, resolves, checks, test⟩ :=
    exists_of_accepted partialSum { seedBuiltins := false } fun _ typed => typed.lowersTo fun module =>
      decide ((module.forward.converted.toplevel.size, module.forward.converted.closures.size) = (3, 1)) &&
        decide ((module.forward.run .agreeable 3).trace.map Request.name = ["emit"])
  obtain ⟨module, lowered, same⟩ := convert_keeps_meaning lexed resolves checks
  rw [Typed.lowersTo_eq lowered, Bool.and_eq_true, decide_eq_true_eq, decide_eq_true_eq] at test
  exact ⟨lexed, resolved, typed, module, resolves, checks, lowered, test.1, test.2, same⟩

end MiddleEnd
