import MiddleEnd.Pipeline
import MiddleEnd.Proofs.Code.Verify
import MiddleEnd.Proofs.Scope.Names
import MiddleEnd.Proofs.Typing.Check

/-! Compilation as a whole: a program is compiled or rejected, and no pass finds a promise of an
earlier one broken. -/

namespace MiddleEnd

variable {α : Type}

/-- Every identifier is one that a lexer can give. -/
def Surface.Lexed (program : Surface) : Prop :=
  (∀ ident ∈ program.body.names, isFine ident.name) ∧
    ∀ mention ∈ program.body.refs, isFine mention.ident.name

instance (name : String) : Decidable (isFine name) :=
  inferInstanceAs (Decidable (name ≠ "" ∧ isTemporary name = false))

instance (program : Surface) : Decidable program.Lexed :=
  inferInstanceAs (Decidable ((∀ ident ∈ program.body.names, isFine ident.name) ∧
    ∀ mention ∈ program.body.refs, isFine mention.ident.name))

theorem Resolved.lower_spec {program : Resolved} (placed : program.WellScoped isFine)
    {settings : Settings} {typed : Typed} (checked : program.check settings = .ok typed) :
    Yields (fun _ => False) typed.lower Module.Raw := by
  obtain ⟨inferred, state, _, spec⟩ := (Resolved.check_spec placed settings).of_eq checked
  have erased : typed.body.erase = program.body := by
    rw [spec.body, Expr.erase_close, spec.complete.erased]
  refine Typed.lower_spec (erased ▸ placed.body) ?_ (erased ▸ placed.distinct)
  rw [spec.body]
  exact spec.complete.derives.shaped (state.defaulted_settle inferred).keeps

/-- A finished compilation. Each loop of the last passes has come to its own end: the copies that
were followed lead nowhere twice, and one more round of classifying functions would change nothing. -/
structure Compilation.Complete (settings : Settings) (result : Compilation) : Prop where
  dumped : result.dumps.map Prod.fst = Stage.all.filter settings.dumps
  verified : result.program.verify result.table = .ok ()
  lowered : ∃ module, result.typed.lower = .ok module ∧
    Copies.Acyclic (Code.copies module.entry.body) ∧
    module.forward.entry.captures.Exact module.forward.entry.body ∧
    result.program = module.forward.converted ∧ result.table = module.forward.table

end MiddleEnd
