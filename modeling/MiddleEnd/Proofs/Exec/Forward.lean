import MiddleEnd.Proofs.Exec.Block
import MiddleEnd.Proofs.Pipeline
import MiddleEnd.Proofs.Source.Safety

/-! Forwarding keeps the meaning of modules. A copy has the value of what it stands for, so what is
read past a copy is the same, and a copy that is taken out is missed by nothing. -/

namespace MiddleEnd

open List

variable {id : Nat} {op : Op} {name : String} {value : Data Closure} {span : Span} {module : Module}

section

variable (copies : NameMap Copy) (gone : List String)

def Copied (scope : List String) (env : Env Closure) : Prop :=
  ∀ name ∈ scope, ∀ copy, copies.find? name = some copy →
    env.lookup name = if copy.isExternal then some (.external copy.target) else env.lookup copy.target

inductive Forwarded (whole : Code) (removed : List Nat) : Closure → Closure → Prop
  | mk {name label : String} {params scope : List String} {body : Code} {env env' : Env Closure}
    (within : Code.Within whole copies (name :: params ++ scope) body)
    (ending : Code.Ending removed body) (closed : Copies.Closed copies scope)
    (plain : ∀ bound ∈ name :: params, copies.find? bound = none)
    (fresh : ∀ bound ∈ name :: params, bound ∉ scope)
    (bound : ∀ name ∈ scope, env.lookup name ≠ none) (copied : Copied copies scope env)
    (seen : ∀ name ∈ scope, name ∉ gone →
      Option.Rel (Data.Rel (Forwarded whole removed)) (env.lookup name) (env'.lookup name)) :
    Forwarded whole removed (.mk name params (.mk label body) env)
      (.mk name params (.mk label (Code.without removed (Code.redirect copies body))) env')

structure Tracks (related : Closure → Closure → Prop) (scope : List String) (env env' : Env Closure) :
    Prop where
  bound : ∀ name ∈ scope, env.lookup name ≠ none
  copied : Copied copies scope env
  seen : ∀ name ∈ scope, name ∉ gone →
    Option.Rel (Data.Rel related) (env.lookup name) (env'.lookup name)

end

variable {copies : NameMap Copy} {whole : Code} {removed : List Nat} {gone scope : List String}
  {related : Closure → Closure → Prop} {env env' : Env Closure}

theorem Copied.cons (copied : Copied copies scope env) (closed : Copies.Closed copies scope)
    (fresh : name ∉ scope) (own : ∀ copy, copies.find? name = some copy →
      (copy.isExternal = false → copy.target ∈ scope) ∧ some value =
        if copy.isExternal then some (.external copy.target) else env.lookup copy.target) :
    Copied copies (name :: scope) ((name, value) :: env) := by
  intro other mem copy here
  have past (inside : copy.isExternal = false) (target : copy.target ∈ scope) :
      List.lookup copy.target ((name, value) :: env) = env.lookup copy.target := by
    rw [Env.lookup_cons, if_neg]
    exact fun same => fresh (same ▸ target)
  rw [Env.lookup_cons]
  split
  · next same =>
    subst same
    obtain ⟨target, own⟩ := own copy here
    rw [own]
    cases outside : copy.isExternal with
    | true => rfl
    | false => exact (past outside (target outside)).symm
  · next differs =>
    have around := (mem_cons.mp mem).resolve_left differs
    rw [copied other around copy here]
    cases outside : copy.isExternal with
    | true => rfl
    | false => exact (past outside (closed other around copy here outside).1).symm

namespace Tracks

section

variable (tracks : Tracks copies gone related scope env env')
include tracks

theorem skip (taken : name ∈ gone)
    (copied : Copied copies (name :: scope) ((name, value) :: env)) :
    Tracks copies gone related (name :: scope) ((name, value) :: env) env' := by
  refine ⟨fun other mem => ?_, copied, fun other mem stays => ?_⟩
  · rw [Env.lookup_cons]
    split
    · exact nofun
    · next differs => exact tracks.bound other ((mem_cons.mp mem).resolve_left differs)
  · have differs : other ≠ name := fun same => stays (same ▸ taken)
    rw [Env.lookup_cons, if_neg differs]
    exact tracks.seen other ((mem_cons.mp mem).resolve_left differs) stays

theorem cons {value' : Data Closure}
    (values : Data.Rel related value value')
    (copied : Copied copies (name :: scope) ((name, value) :: env)) :
    Tracks copies gone related (name :: scope) ((name, value) :: env) ((name, value') :: env') := by
  refine ⟨fun other mem => ?_, copied, fun other mem stays => ?_⟩
  · rw [Env.lookup_cons]
    split
    · exact nofun
    · next differs => exact tracks.bound other ((mem_cons.mp mem).resolve_left differs)
  · rw [Env.lookup_cons, Env.lookup_cons]
    split
    · exact .some values
    · next differs => exact tracks.seen other ((mem_cons.mp mem).resolve_left differs) stays

theorem target (closed : Copies.Closed copies scope) (mem : name ∈ scope)
    (stays : Copies.target copies name ∉ gone) :
    Option.Rel (Data.Rel related) (env.lookup name) (env'.lookup (Copies.target copies name)) := by
  have same : env.lookup name = env.lookup (Copies.target copies name) := by
    cases found : copies.find? name with
    | none => simp only [Copies.target, found]
    | some copy =>
      have copied := tracks.copied name mem copy found
      cases outside : copy.isExternal with
      | true => simp only [Copies.target, found, outside, if_true]
      | false => simpa [Copies.target, found, outside] using copied
  rw [same]
  exact tracks.seen _ (Copies.target_mem closed mem) stays

theorem toExternal (closed : Copies.Closed copies scope) {fuel : Nat} {external : String}
    {names : List String}
    (mem : name ∈ scope) (found : Copies.toExternal copies fuel name = some (names, external)) :
    env.lookup name = some (.external external) := by
  induction fuel generalizing name names with
  | zero => cases found
  | succ _ ih =>
    obtain ⟨copy, here, ⟨outside, _, same⟩ | ⟨inside, _, _, rest_found⟩⟩ :=
      Copies.toExternal_succ.mp found
    · rw [tracks.copied name mem copy here, outside, if_pos rfl, same]
    · rw [tracks.copied name mem copy here, inside, if_neg Bool.false_ne_true]
      exact ih (closed name mem copy here inside).1 rest_found

theorem call {params : List String} {args args' : List (Data Closure)} {self self' : Data Closure}
    (closed : Copies.Closed copies scope)
    (plain : ∀ bound ∈ name :: params, copies.find? bound = none)
    (fresh : ∀ bound ∈ name :: params, bound ∉ scope) (selves : Data.Rel related self self')
    (each : Forall₂ (Data.Rel related) args args') (same_length : args.length = params.length) :
    Tracks copies gone related (name :: params ++ scope) (params.zip args ++ (name, self) :: env)
      (params.zip args' ++ (name, self') :: env') := by
  have past {other : String} (around : other ∈ scope) :
      (params.zip args ++ (name, self) :: env).lookup other = env.lookup other := by
    have no_param : other ∉ params := fun own => fresh other (.tail _ own) around
    have no_name : other ≠ name := fun same => fresh name (.head _) (same ▸ around)
    rw [Env.lookup_zip_of_not_mem no_param, Env.lookup_cons, if_neg no_name]
  constructor
  · intro other mem
    by_cases own : other ∈ params
    · exact Env.lookup_zip_ne_none same_length own
    · rw [Env.lookup_zip_of_not_mem own, Env.lookup_cons]
      split
      · exact nofun
      · next differs => exact tracks.bound other (by simpa [differs, own] using mem)
  · intro other mem copy here
    have around : other ∈ scope := by
      rcases mem_append.mp mem with own | around
      · rw [plain other own] at here
        cases here
      · exact around
    rw [past around, tracks.copied other around copy here]
    cases outside : copy.isExternal with
    | true => rfl
    | false => exact (past (closed other around copy here outside).1).symm
  · intro other mem stays
    refine Env.rel_lookup_zip each same_length fun no_param => ?_
    rw [Env.lookup_cons, Env.lookup_cons]
    split
    · exact .some selves
    · next differs => exact tracks.seen other (by simpa [differs, no_param] using mem) stays

end

end Tracks

namespace Exec

variable {host : Host} {enter enter' : Closure → List (Data Closure) → RunM Closure (Data Closure)}

theorem agree_op_redirect (removal : Copies.Removal copies whole removed gone)
    (enters : Enters related enter enter') (tracks : Tracks copies gone related scope env env')
    (closed : Copies.Closed copies scope) (inside : ⟨id, name, span, .op op⟩ ∈ Code.instrs whole)
    (fits : ∀ operand ∈ op.operands, operand ∈ scope)
    (original : op.Original) :
    Agree related (Data.Rel related) (Exec.op host (Closure.convention host enter) env op)
      (Exec.op host (Closure.convention host enter') env' (op.redirect copies)) := by
  have survives := removal.operand_survives closed inside fits
  have plain := removal.of.plain _ inside
  have read_all {names : List String} (visible : ∀ name ∈ names, name ∈ scope)
      (left : ∀ name ∈ names, Copies.target copies name ∈ (op.redirect copies).operands) :
      Agree related (Forall₂ (Data.Rel related)) (readAll env names)
        (readAll env' (names.map (Copies.target copies))) :=
    agree_readAll (Copies.target copies) fun name mem =>
      tracks.target closed (visible name mem) (survives _ (left name mem)).2
  rw [original.redirect_eq] at survives read_all ⊢
  by_cases is_call : ∃ kind callee args, op = .call kind callee args
  · obtain ⟨kind, callee, args, rfl⟩ := is_call
    obtain rfl : kind = .direct := plain
    have callee_visible : callee ∈ scope := fits callee (.head _)
    have args_visible : ∀ arg ∈ args, arg ∈ scope := fun arg mem =>
      fits arg (.tail _ mem)
    cases found : Copies.external? copies callee with
    | some chain =>
      obtain ⟨names, external⟩ := chain
      simp only [Copies.callee, reduceCtorEq, if_false, found, Op.mapOperands] at read_all ⊢
      refine .bind (read_all args_visible fun arg mem => ?_) fun values values' each => ?_
      · simpa [Op.operands] using ⟨arg, mem, rfl⟩
      · have outside := tracks.toExternal closed callee_visible found
        simp only [Closure.convention, read, outside, orHalt, pure_bind]
        exact agree_callExternal host external each
    | none =>
      simp only [Copies.callee, reduceCtorEq, if_false, found, Op.mapOperands] at read_all survives ⊢
      refine .bind (read_all args_visible fun arg mem => ?_) fun values values' each => ?_
      · simpa [Op.operands] using .inr ⟨arg, mem, rfl⟩
      · have stays := (survives (Copies.target copies callee) (by simp [Op.operands])).2
        refine .bind (agree_read (tracks.target closed callee_visible stays)) fun _ _ callees => ?_
        exact agree_callValue host enters callees each
  · have basic : op.Basic := by
      cases op with
      | call kind callee args => exact is_call ⟨kind, callee, args, rfl⟩
      | closure => exact plain
      | _ => trivial
    have same : (Copies.callee copies op).1 = op := by
      cases op with
      | call => cases basic
      | _ => rfl
    rw [same] at read_all ⊢
    rw [op_eq_compute host _ env basic, op_eq_compute host _ env' (basic.mapOperands _),
      Op.operands_mapOperands, compute_mapOperands]
    refine .bind (read_all fits fun name mem => ?_) fun values values' each => ?_
    · rw [Op.operands_mapOperands]
      exact mem_map_of_mem mem
    · exact agree_compute host op each

def Redirects (host : Host) (whole : Code) (copies : NameMap Copy) (removed : List Nat)
    (gone : List String) (enter enter' : Closure → List (Data Closure) → RunM Closure (Data Closure))
    (code : Code) : Prop :=
  ∀ (scope : List String) (env env' : Env Closure), Code.Within whole copies scope code →
    Tracks copies gone (Forwarded copies gone whole removed) scope env env' →
      Agree (Forwarded copies gone whole removed)
        (Tracks copies gone (Forwarded copies gone whole removed) ((code.map Instr.name).reverse ++ scope))
        (Exec.code host (Closure.convention host enter) env code)
        (Exec.code host (Closure.convention host enter') env'
          (Code.without removed (Code.redirect copies code)))

theorem Redirects.block (removal : Copies.Removal copies whole removed gone) {body : Code}
    (redirects : Redirects host whole copies removed gone enter enter' body)
    (within : Code.Within whole copies scope body) (ending : Code.Ending removed body)
    (tracks : Tracks copies gone (Forwarded copies gone whole removed) scope env env') (label : String) :
    Agree (Forwarded copies gone whole removed) (Data.Rel (Forwarded copies gone whole removed))
      (Exec.block host (Closure.convention host enter) env (.mk label body))
      (Exec.block host (Closure.convention host enter') env'
        (.mk label (Code.without removed (Code.redirect copies body)))) := by
  rw [Exec.block, Exec.block]
  refine .bind (redirects _ _ _ within tracks) fun _ _ tracks => ?_
  obtain ⟨front, instr, back, rfl, present, _, dropped, trailing⟩ := ending
  have own : instr ∈ front ++ instr :: back := by simp
  have stays : instr.name ∉ gone := fun taken =>
    present ((removal.numbered instr (within.inside instr (Code.mem_instrs own))).mpr taken)
  have visible (other : Instr Block) (mem : other ∈ front ++ instr :: back) :
      other.name ∈ ((front ++ instr :: back).map Instr.name).reverse ++ scope :=
    mem_append_left _ (mem_reverse.mpr (mem_map_of_mem mem))
  have values := tracks.seen instr.name (visible instr own) stays
  rw [Code.without_redirect_append present dropped, getLast?_concat]
  rcases trailing with rfl | ⟨more, last, rfl, is_ref⟩
  · rw [getLast?_concat]
    exact agree_read values
  · have last_own : last ∈ front ++ instr :: (more ++ [last]) := by simp
    have copy := removal.of.copy last (within.inside last (Code.mem_instrs last_own))
    rw [Instr.copy?, is_ref] at copy
    have copied := tracks.copied last.name (visible last last_own) _ copy
    rw [if_neg Bool.false_ne_true] at copied
    have final : (front ++ instr :: (more ++ [last])).getLast? = some last := by
      rw [← cons_append, ← append_assoc, getLast?_concat]
    rw [final]
    refine agree_read ?_
    rw [copied]
    exact values

theorem op_ref {convention : Convention Closure} {target : String}
    (found : env.lookup target = some value) :
    Exec.op host convention env (.ref target) = pure value := by
  simp [Exec.op, Op.operands, readAll, read, found, orHalt, compute, oneOperand]

section

variable (removal : Copies.Removal copies whole removed gone)
include removal

theorem redirects_op (enters : Enters (Forwarded copies gone whole removed) enter enter') {rest : Code}
    (ih : Redirects host whole copies removed gone enter enter' rest) :
    Redirects host whole copies removed gone enter enter' (⟨id, name, span, .op op⟩ :: rest) := by
  intro scope env _ within tracks
  have inside := within.inside _ (Code.mem_instrs (.head _))
  have here := removal.of.copy _ inside
  have fresh : name ∉ scope := fun mem => within.apart name mem (by simp [Code.defs_op])
  have order : ((⟨id, name, span, .op op⟩ :: rest : Code).map Instr.name).reverse ++ scope =
      (rest.map Instr.name).reverse ++ name :: scope := by simp
  rw [order, Exec.code, Code.redirect, Code.without]
  rcases op.copy_or_original with ⟨target, rfl⟩ | ⟨target, rfl⟩ | original
  · have visible : target ∈ scope := within.fits.1 target (by simp [Op.operands])
    obtain ⟨value, found⟩ := Option.ne_none_iff_exists'.mp (tracks.bound target visible)
    have copied : Copied copies (name :: scope) ((name, value) :: env) := by
      refine tracks.copied.cons within.closed fresh fun copy there => ?_
      obtain rfl : copy = ⟨id, target, false⟩ := by simpa [here, Instr.copy?, eq_comm] using there
      exact ⟨fun _ => visible, by rw [if_neg Bool.false_ne_true, found]⟩
    rw [op_ref found, pure_bind]
    split
    · next taken =>
      have dropped := (removal.numbered _ inside).mp (by simpa using taken)
      exact ih _ _ _ (within.rest removal.of) (tracks.skip dropped copied)
    · have clean : isTemporary target = false := removal.of.plain _ inside
      have stays : target ∉ gone := fun taken => by
        rw [removal.temporary target taken] at clean
        cases clean
      have values := tracks.seen target visible stays
      rw [found] at values
      obtain ⟨value', found', values⟩ := exists_of_rel_some values
      rw [Exec.code, Op.redirect, op_ref found', pure_bind]
      exact ih _ _ _ (within.rest removal.of) (tracks.cons values copied)
  · have copied : Copied copies (name :: scope) ((name, .external target) :: env) := by
      refine tracks.copied.cons within.closed fresh fun copy there => ?_
      obtain rfl : copy = ⟨id, target, true⟩ := by simpa [here, Instr.copy?, eq_comm] using there
      exact ⟨Bool.noConfusion, rfl⟩
    have ran (convention : Convention Closure) (env : Env Closure) :
        Exec.op host convention env (.external target) = pure (.external target) := rfl
    rw [ran, pure_bind]
    split
    · next taken =>
      have dropped := (removal.numbered _ inside).mp (by simpa using taken)
      exact ih _ _ _ (within.rest removal.of) (tracks.skip dropped copied)
    · rw [Exec.code, Op.redirect, ran, pure_bind]
      exact ih _ _ _ (within.rest removal.of) (tracks.cons (.external target) copied)
  · have stays : removed.contains id = false := by simpa using removal.kept inside original.copy?_eq
    rw [stays, if_neg Bool.false_ne_true, Exec.code]
    refine .bind (agree_op_redirect removal enters tracks within.closed inside within.fits.1 original)
      fun value value' values => ?_
    refine ih _ _ _ (within.rest removal.of) (tracks.cons values ?_)
    refine tracks.copied.cons within.closed fresh fun _ there => ?_
    rw [here, original.copy?_eq] at there
    cases there

theorem redirects (endings : Forward.Endings removed whole)
    (enters : Enters (Forwarded copies gone whole removed) enter enter') (code : Code) :
    Redirects host whole copies removed gone enter enter' code := by
  induction code using Code.induction with
  | nil =>
    intro _ _ _ _ tracks
    exact .pure tracks
  | op ih => exact redirects_op removal enters ih
  | @branch id name span test label yes label' no rest yes_ih no_ih ih =>
    intro scope _ _ within tracks
    have inside := within.inside _ (Code.mem_instrs (.head _))
    have here : copies.find? name = none := removal.of.copy _ inside
    have fresh : name ∉ scope := fun mem => within.apart name mem (by simp [Code.defs_branch])
    have stays : removed.contains id = false := by simpa using removal.kept inside rfl
    have read : (test, .value) ∈ Code.uses whole := mem_flatMap.mpr ⟨_, inside, .head _⟩
    have order : ((⟨id, name, span, .branch test (.mk label yes) (.mk label' no)⟩ :: rest : Code).map
        Instr.name).reverse ++ scope = (rest.map Instr.name).reverse ++ name :: scope := by simp
    rw [order]
    simp only [Code.redirect, Block.redirect, Code.without, Block.without, stays, Bool.false_eq_true,
      if_false, Exec.code]
    refine .bind (agree_read (tracks.target within.closed within.fits.1
      (removal.target_not_gone within.closed within.fits.1 (.inl read)))) fun _ _ tests => ?_
    have yes_agrees := yes_ih.block removal (within.arm (.inl rfl))
      (endings _ inside (.mk label yes) (by simp [Value.blocks])).ending tracks label
    have no_agrees := no_ih.block removal (within.arm (.inr rfl))
      (endings _ inside (.mk label' no) (by simp [Value.blocks])).ending tracks label'
    refine .bind (agree_choose tests yes_agrees no_agrees) fun value value' values => ?_
    refine ih _ _ _ (within.rest removal.of) (tracks.cons values (tracks.copied.cons within.closed fresh ?_))
    intro _ there
    rw [here] at there
    cases there
  | @function id name span params label body recursive rest body_ih ih =>
    intro scope env env' within tracks
    have inside := within.inside _ (Code.mem_instrs (.head _))
    have here : copies.find? name = none := removal.of.copy _ inside
    have fresh : ∀ bound ∈ name :: params, bound ∉ scope := fun bound own mem =>
      within.apart bound mem (by
        rw [Code.defs_function]
        exact mem_append_left _ own)
    have stays : removed.contains id = false := by simpa using removal.kept inside rfl
    have order : ((⟨id, name, span, .function params (.mk label body) recursive⟩ :: rest : Code).map
        Instr.name).reverse ++ scope = (rest.map Instr.name).reverse ++ name :: scope := by simp
    rw [order]
    simp only [Code.redirect, Block.redirect, Code.without, Block.without, stays, Bool.false_eq_true,
      if_false, Exec.code]
    have plain : ∀ bound ∈ name :: params, copies.find? bound = none := by
      intro bound own
      rcases mem_cons.mp own with rfl | own
      · exact here
      · exact removal.of.param _ inside bound own
    have functions : Data.Rel (Forwarded copies gone whole removed)
        (.function (.mk name params (.mk label body) env))
        (.function (.mk name params
          (.mk label (Code.without removed (Code.redirect copies body))) env')) :=
      .function <| .mk (within.body removal.of)
        (endings _ inside (.mk label body) (by simp [Value.blocks])).ending within.closed plain fresh
        tracks.bound tracks.copied tracks.seen
    refine .bind (.pure functions) fun value value' values => ?_
    refine ih _ _ _ (within.rest removal.of) (tracks.cons values (tracks.copied.cons within.closed
      (fresh name (.head _)) ?_))
    intro _ there
    rw [here] at there
    cases there

theorem enters_forwarded (endings : Forward.Endings removed whole) (fuel : Nat) :
    Enters (Forwarded copies gone whole removed) (Closure.enter host fuel) (Closure.enter host fuel) := by
  induction fuel with
  | zero => exact fun _ _ _ _ _ _ => .halt .timeout
  | succ _ ih =>
    intro _ _ codes _ _ each
    have selves := Data.Rel.function codes
    obtain ⟨within, ending, closed, plain, fresh, bound, copied, seen⟩ := codes
    rw [Closure.enter, Closure.enter, ← each.length_eq]
    split
    · next same_length =>
      have tracks := Tracks.call ⟨bound, copied, seen⟩ closed plain fresh selves each same_length
      exact (redirects removal endings ih _).block removal within ending tracks _
    · exact .halt .stuck

end

end Exec

theorem Module.Raw.run_forward (raw : module.Raw) (host : Host) (fuel : Nat) :
    module.forward.run host fuel = module.run host fuel := by
  obtain ⟨removed, gone, forwards⟩ := raw.exists_forwards
  obtain ⟨⟨label, body⟩, _⟩ := module
  have enters : Exec.Enters (Forwarded (Code.copies body) gone body removed) (Closure.enter host fuel)
      (Closure.enter host fuel) :=
    Exec.enters_forwarded forwards.removal forwards.endings fuel
  have runs : Exec.Redirects host body (Code.copies body) removed gone (Closure.enter host fuel)
      (Closure.enter host fuel) body :=
    Exec.redirects forwards.removal forwards.endings enters body
  rw [Module.run, Module.run, forwards.entry]
  exact (runs.block forwards.removal raw.within forwards.trimmed.ending ⟨nofun, nofun, nofun⟩ label).observe.symm

theorem Surface.exists_lowered {program : Surface} (lexed : program.Lexed) {resolved : Resolved}
    {typed : Typed} {settings : Settings} (resolves : program.resolve = .ok resolved)
    (checks : resolved.check settings = .ok typed) :
    ∃ module, typed.lower = .ok module ∧ module.Raw := by
  have placed := wellScoped_resolve (.of_names lexed.1 lexed.2) resolves
  have lowers := Resolved.lower_spec placed checks
  cases lowered : typed.lower with
  | ok module => exact ⟨module, rfl, lowers.of_eq lowered⟩
  | error _ =>
    rw [lowered] at lowers
    exact lowers.elim

/-- Forwarding keeps meaning: whatever the host and however deep calls may go, a module that comes from
an accepted program ends the same, leaves the same heap and calls the same externals. -/
theorem Surface.forward_keeps_meaning {program : Surface} (lexed : program.Lexed) {resolved : Resolved}
    {typed : Typed} {settings : Settings} (resolves : program.resolve = .ok resolved)
    (checks : resolved.check settings = .ok typed) :
    ∃ module, typed.lower = .ok module ∧
      ∀ host fuel, module.forward.run host fuel = module.run host fuel := by
  obtain ⟨module, lowered, raw⟩ := exists_lowered lexed resolves checks
  exact ⟨module, lowered, raw.run_forward⟩

def Host.agreeable : Host where
  int op lhs rhs := if op = .add then some (lhs + rhs) else none
  negate n := -n
  float _ lhs _ := lhs
  floatNegate n := n
  compare _ _ _ _ := some true
  call _ _ _ heap := some (.lit (.bool true), heap)
  call_map _ _ _ _ _ := rfl

/-- `let ask = confirm in let x = 1 in if ask x then x else 2` -/
def Surface.renamedExternal : Surface :=
  let name (text : String) : Ident := ⟨text, default, 0⟩
  let var (text : String) (order : Nat) : Expr Ident Mention TypeExpr Span :=
    .var default ⟨name text, order⟩
  { body :=
      .letIn default ⟨name "ask", none⟩ (var "confirm" 0)
        (.letIn default ⟨name "x", none⟩ (.lit default (.int 1))
          (.cond default (.apply default (var "ask" 1) [var "x" 2]) (var "x" 3)
            (.lit default (.int 2)))) }

def Typed.lowersTo (program : Typed) (test : Module → Bool) : Bool :=
  match program.lower with
  | .error _ => false
  | .ok module => test module

theorem Typed.lowersTo_eq {program : Typed} (lowered : program.lower = .ok module)
    (test : Module → Bool) : program.lowersTo test = test module := by
  rw [lowersTo, lowered]

/-- Two of six instructions are taken out, and the external is still called. -/
theorem Surface.forward_keeps_meaning_renamedExternal : renamedExternal.Lexed ∧
    ∃ resolved typed module, renamedExternal.resolve = .ok resolved ∧
      resolved.check { seedBuiltins := false } = .ok typed ∧ typed.lower = .ok module ∧
      (module.entry.body.length, module.forward.entry.body.length) = (6, 4) ∧
      (module.run .agreeable 0).trace.map Request.name = ["confirm"] ∧
      ∀ host fuel, module.forward.run host fuel = module.run host fuel := by
  have lexed : renamedExternal.Lexed := by decide +kernel
  obtain ⟨resolved, typed, resolves, checks, test⟩ :=
    exists_of_accepted renamedExternal { seedBuiltins := false } fun _ typed => typed.lowersTo fun module =>
      decide ((module.entry.body.length, module.forward.entry.body.length) = (6, 4)) &&
        decide ((module.run .agreeable 0).trace.map Request.name = ["confirm"])
  obtain ⟨module, lowered, same⟩ := forward_keeps_meaning lexed resolves checks
  rw [Typed.lowersTo_eq lowered, Bool.and_eq_true, decide_eq_true_eq, decide_eq_true_eq] at test
  exact ⟨lexed, resolved, typed, module, resolves, checks, lowered, test.1, test.2, same⟩

end MiddleEnd
