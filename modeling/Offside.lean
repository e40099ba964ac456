import Offside.Main
import Offside.Proofs.Canonical.Spelling
import Offside.Proofs.Canonical.Text
import Offside.Proofs.Parser.Assignment
import Offside.Proofs.Parser.Branches
import Offside.Proofs.Parser.Precedence
import Offside.Proofs.Session.BlankLines
import Offside.Proofs.Session.Closed
import Offside.Proofs.Session.Covered
import Offside.Proofs.Session.Declarations
import Offside.Proofs.Session.Failures
import Offside.Proofs.Session.Finite
import Offside.Proofs.Session.Lawful
import Offside.Proofs.Session.LineByLine
import Offside.Proofs.Session.LineEndStyle
import Offside.Proofs.Session.Lowered
import Offside.Proofs.Session.Pointing
import Offside.Proofs.Session.Printed
import Offside.Proofs.Session.Prompts
import Offside.Proofs.Session.Redeclared
import Offside.Proofs.Session.Rejected
import Offside.Proofs.Session.Restarted
import Offside.Proofs.Session.Symbols
import Offside.Proofs.Session.Undone
import Offside.Proofs.Session.Unended
import Offside.Proofs.Source.Delivered
import Offside.Proofs.Token.Content
import Offside.Proofs.Token.Stretches
import Offside.Proofs.Types.History
import Offside.Proofs.Types.Returns
import Offside.Proofs.Types.Rollback
import Offside.Proofs.Types.Settled
import Offside.Proofs.Typing.Scoping
import Offside.Proofs.Canonical.Tokens
import Offside.Proofs.Canonical.Types
import Offside.Proofs.Token.Runs
import Offside.Proofs.Session.Found
