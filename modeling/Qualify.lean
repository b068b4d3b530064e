import Qualify.Cursor
import Qualify.Main
import Qualify.Name
import Qualify.Proofs.Declaration.Reading
import Qualify.Proofs.Quote.Faithful
import Qualify.Proofs.Qualifier.Level
import Qualify.Proofs.Qualifier.Verbatim
import Qualify.Proofs.Scope.Sound
import Qualify.Proofs.Qualifier.Settled
import Qualify.Proofs.Quote.Settled
import Qualify.Proofs.Declaration.Worklist
import Qualify.Proofs.Qualifier.Buffer
import Qualify.Proofs.Scope.Loading
import Qualify.Proofs.Quote.Faultless
import Qualify.Proofs.Quote.Switches
import Qualify.Proofs.Declaration.Written
import Qualify.Proofs.Declaration.Chains
import Qualify.Proofs.Declaration.Sequence
import Qualify.Proofs.Declaration.Located
import Qualify.Proofs.Scope.Reserved
import Qualify.Proofs.Quote.Shadowing
import Qualify.Proofs.Quote.Wrapped
import Qualify.Proofs.Qualifier.Bare
import Qualify.Proofs.Qualifier.Ahead
import Qualify.Proofs.Tree.Outcome
import Qualify.Proofs.Cli.Modes
import Qualify.Proofs.Name.Format
import Qualify.Proofs.Name.Seeds
import Qualify.Proofs.Qualifier.Local
import Qualify.Proofs.Tree.Seams
import Qualify.Proofs.Tree.Walk
import Qualify.Proofs.Qualifier.Rooted
import Qualify.Proofs.Quote.Identifiers
