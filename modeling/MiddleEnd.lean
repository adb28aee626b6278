import MiddleEnd.Code.Edit
import MiddleEnd.Proofs.Code.Arena
import MiddleEnd.Proofs.Code.Forwarded
import MiddleEnd.Proofs.Code.Greatest
import MiddleEnd.Proofs.Code.Hoisted
import MiddleEnd.Proofs.Code.WellTyped
import MiddleEnd.Proofs.Interner
import MiddleEnd.Proofs.Scope.Lexical
import MiddleEnd.Proofs.Scope.Undeclared
import MiddleEnd.Proofs.Text.Highlight
import MiddleEnd.Proofs.Ty.Conflict
import MiddleEnd.Proofs.Ty.Least
import MiddleEnd.Proofs.Ty.Printed
import MiddleEnd.Proofs.Ty.Runs
import MiddleEnd.Proofs.Typing.Elements
import MiddleEnd.Proofs.Typing.Instances
import MiddleEnd.Proofs.Typing.Principal
import MiddleEnd.Registry
