import MiddleEnd.Proofs.Code.WellFormed
import MiddleEnd.Proofs.Source.Safety

/-! What type checking returns for a program is a typing derivation of it, and the table of names is
read off the derivation. -/

namespace MiddleEnd

variable {store later : Store} {state : Inference} {typed : Typed}

/-! ### Defaults -/

namespace Store

theorem Defaulted.expand_eq (defaulted : store.Defaulted later) {n : Nat}
    (unlinked : store.link? n = none) :
    later.expand (.var n) = .var n ∨ later.expand (.var n) = .unit := by
  cases linked : later.link? n with
  | none => exact .inl (expand_of_unlinked linked)
  | some _ =>
    rw [expand_of_linked linked, defaulted.unit unlinked linked]
    exact .inr rfl

theorem Defaulted.leaves (defaulted : store.Defaulted later) : store.Leaves later where
  keeps := defaulted.keeps
  frozen frozen := (defaulted.isGeneralized _).trans frozen
  unlinked frozen unlinked := (defaulted.frozen frozen).trans unlinked
  apart {n other} _ unlinked differs mem := by
    rcases defaulted.expand_eq unlinked with same | same
    · rw [same] at mem
      exact differs (by simpa using mem)
    · rw [same] at mem
      cases mem
  plain {n} unlinked := by
    rcases defaulted.expand_eq unlinked with same | same <;> rw [same] <;> rfl

end Store

theorem Watch.Holds.unquantified {watch : Watch} {level : Nat} {type : Ty}
    (holds : watch.Holds state level type) (alone : watch.alone)
    (defaulted : state.store.Defaulted later) : later.Unquantified type := by
  refine ⟨fun n mem => ?_, defaulted.generics (List.eq_nil_iff_forall_not_mem.mpr holds.generics)⟩
  obtain ⟨between, there, mem⟩ := defaulted.keeps.mem_vars_expand.mp mem
  rcases defaulted.expand_eq (Store.link?_of_mem_expand there) with same | same
  · rw [same] at mem
    obtain rfl : n = between := by simpa using mem
    exact (defaulted.isGeneralized n).trans ((holds.vars n there).unfrozen alone)
  · rw [same] at mem
    cases mem

/-! ### Programs -/

namespace Infer

def still : Watch := ⟨True, [], 0⟩

theorem good_still (seeded : Bool) :
    still.Good { externals := if seeded then builtinExternals else .empty } := by
  intro entry mem
  have mono := good_builtins seeded entry mem
  refine ⟨mono.covers, fun n there => ?_, fun n there => ?_⟩
  · exact absurd (Store.Covers.expand mono.covers n there) (Nat.not_lt_zero n)
  · rw [mono.plain] at there
    cases there

end Infer

theorem Infer.follows_settle {types : List Ty} (fits : still.Fits { aliases := types } state 0 [])
    (body : TypedExpr) : state.Follows { state with store := state.settle body } types where
  leaves := (state.defaulted_settle body).leaves
  external := id
  externals entry mem := (fits.good entry mem).unquantified trivial (state.defaulted_settle body)
  aliases type mem := (fits.aliases type mem).unquantified trivial (state.defaulted_settle body)

/-- The types that are known in a whole program. -/
def Typed.globals (program : Typed) (aliases : List Ty) : Globals where
  externals name := (program.externals.find? name).map External.type
  aliases := aliases

/-- A typing derivation of a program: aliases and externals are as they are declared, the types at the
nodes and binders of the body follow the typing rules, and the table has the types of the binders. -/
structure Resolved.Derivation (program : Resolved) (typed : Typed) (aliases : List Ty) : Prop where
  erased : typed.body.erase = program.body
  length_eq : aliases.length = program.aliases.length
  aliased {index : Nat} {entry : Alias Annotation} (here : program.aliases[index]? = some entry) :
    ∃ type, aliases[index]? = some type ∧ Describes aliases entry.type type
  declared : ∀ entry ∈ program.externals, ∃ type, Describes aliases entry.type type ∧
    typed.externals.find? entry.name.name = some ⟨type, entry.linkName⟩
  body : WellTyped (typed.globals aliases) [] typed.body
  table : ∀ bound ∈ typed.body.names, typed.table.find? bound.symbol.name = some bound.type

theorem Typed.find?_table {program : Typed}
    (distinct : (program.body.erase.names.map Symbol.number).Nodup) :
    ∀ bound ∈ program.body.names, program.table.find? bound.symbol.name = some bound.type := by
  have names : (program.body.erase.names).Perm (program.body.names.map Bound.symbol) :=
    Expr.names_map_perm _ _ _ _ program.body
  have nodup := Symbol.nodup_names ((names.map _).nodup_iff.mp distinct)
  intro _ mem
  refine (NameMap.find?_ofList ?_).mpr (List.mem_map_of_mem mem)
  rw [List.map_map] at nodup ⊢
  exact nodup

theorem find?_closed
    (externals : typed.externals.entries = state.externals.entries.map fun (name, external) =>
      (name, { external with type := store.closed external.type })) (name : String) :
    typed.externals.find? name = (state.externals.find? name).map fun external =>
      { external with type := store.closed external.type } := by
  rw [NameMap.find?, externals]
  exact lookup_map_snd (fun external : External =>
    { external with type := store.closed external.type }) state.externals.entries name

theorem Resolved.exists_derivation {fine : String → Prop} {resolved : Resolved} {settings : Settings}
    (placed : resolved.WellScoped fine) (checks : resolved.check settings = .ok typed)
    (plain : resolved.body.PlainPatterns) :
    ∃ aliases, resolved.Derivation typed aliases := by
  obtain ⟨⟨inferred, state⟩, infers, checks⟩ := bind_eq_ok.mp checks
  obtain ⟨typed, closes, checks⟩ := bind_eq_ok.mp checks
  obtain ⟨_, compares, ended⟩ := bind_eq_ok.mp checks
  cases ended
  obtain ⟨⟨types, complete, fits, body_types⟩, -⟩ :=
    (Infer.program_found placed (fun _ => plain) (Infer.good_still settings.seedBuiltins) rfl).of_run infers
  obtain ⟨body_eq, externals_eq⟩ := (state.close_spec complete.derives resolved).of_eq closes
  have comparable := (checkComparisons_spec typed.body).of_eq compares
  have found := find?_closed externals_eq
  have erased : typed.body.erase = resolved.body := by
    rw [body_eq, Expr.erase_close, complete.erased]
  let store := state.settle inferred
  have globals_eq : typed.globals (types.map store.closed) = Inference.globals { state with store } types := by
    refine congrArg (Globals.mk · _) (funext fun _ => ?_)
    rw [found, Option.map_map]
    rfl
  refine ⟨types.map store.closed, erased, by rw [List.length_map, complete.aliases], fun here => ?_,
    fun entry mem => ?_, ?_, Typed.find?_table (erased ▸ placed.distinct)⟩
  · obtain ⟨type, there, describes⟩ := complete.aliased here
    exact ⟨store.closed type, by rw [List.getElem?_map, there]; rfl, describes.close store⟩
  · obtain ⟨type, describes, there⟩ := complete.declared entry mem
    exact ⟨store.closed type, describes.close store, by rw [found, there]; rfl⟩
  · rw [globals_eq, body_eq]
    exact body_types trivial _ (Infer.follows_settle fits inferred) (body_eq ▸ comparable)

theorem Surface.derivation_of_check {program : Surface} {resolved : Resolved} {typed : Typed}
    {settings : Settings} (resolves : program.resolve = .ok resolved)
    (checks : resolved.check settings = .ok typed) (plain : resolved.body.PlainPatterns) :
    ∃ aliases, resolved.Derivation typed aliases := by
  exact Resolved.exists_derivation (wellScoped_of_resolve resolves) checks plain

/-- `let rec swap p = let (a, b) = p in (b, a) in let (x, y) = swap (1, true) in
if x then swap (y, x) = (x, y) else false` -/
def Surface.swappedPairs : Surface :=
  let name (text : String) : Ident := ⟨text, default, 0⟩
  let var (text : String) (order : Nat) : Expr Ident Mention TypeExpr Span :=
    .var default ⟨name text, order⟩
  { body :=
      .letRec default (name "swap") [⟨name "p", none⟩] none
        (.letTuple default [⟨name "a", none⟩, ⟨name "b", none⟩] (var "p" 0)
          (.tuple default [var "b" 1, var "a" 2]))
        (.letTuple default [⟨name "x", none⟩, ⟨name "y", none⟩]
          (.apply default (var "swap" 3) [.tuple default [.lit default (.int 1), .lit default (.bool true)]])
          (.cond default (var "x" 4)
            (.binary default .equals (.apply default (var "swap" 5)
              [.tuple default [var "y" 6, var "x" 7]]) (.tuple default [var "x" 8, var "y" 9]))
            (.lit default (.bool false)))) }

theorem Surface.derivation_of_check_swappedPairs : ∃ resolved typed aliases,
    swappedPairs.resolve = .ok resolved ∧ resolved.check { seedBuiltins := false } = .ok typed ∧
      resolved.body.PlainPatterns ∧ resolved.Derivation typed aliases ∧
      1 < (typed.instantiations).length := by
  obtain ⟨resolved, typed, resolves, checks, test⟩ :=
    exists_of_accepted swappedPairs { seedBuiltins := false } fun resolved typed =>
      decide resolved.body.PlainPatterns && decide (1 < typed.instantiations.length)
  rw [Bool.and_eq_true, decide_eq_true_eq, decide_eq_true_eq] at test
  obtain ⟨aliases, derivation⟩ := derivation_of_check resolves checks test.1
  exact ⟨resolved, typed, aliases, resolves, checks, test.1, derivation, test.2⟩

end MiddleEnd
