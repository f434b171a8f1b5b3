import TableScript.Main
import TableScript.Proofs.Expr.Balanced
import TableScript.Proofs.Expr.References
import TableScript.Proofs.Layout.Arrays
import TableScript.Proofs.Layout.Ending
import TableScript.Proofs.Layout.Located
import TableScript.Proofs.Phrase.Arguments
import TableScript.Proofs.Phrase.Boundaries
import TableScript.Proofs.Phrase.Literals
import TableScript.Proofs.Program.Failures
import TableScript.Proofs.Program.Recursion
import TableScript.Proofs.Program.Verbatim
import TableScript.Proofs.Run.Arrays
import TableScript.Proofs.Run.Growth
import TableScript.Proofs.Run.Independence
import TableScript.Proofs.Run.Isolation
import TableScript.Proofs.Run.Limit
import TableScript.Proofs.Run.Loops
import TableScript.Proofs.Run.Operators
import TableScript.Proofs.Run.Termination
import TableScript.Proofs.Text.Visits
