import Polyglot.Connection
import Polyglot.Main
import Polyglot.SyntaxTree.Outline
import Polyglot.Proofs.Response.Echo
import Polyglot.Proofs.Response.Keys
import Polyglot.Proofs.Registry.History
import Polyglot.Proofs.Connection.Runs
import Polyglot.Proofs.Connection.Delivery
import Polyglot.Proofs.Connection.Isolation
import Polyglot.Proofs.Connection.Channel
import Polyglot.Proofs.Connection.Draining
import Polyglot.Proofs.Dispatch.Feedback
import Polyglot.Proofs.Double.Sum
import Polyglot.Proofs.Pattern.Gaps
import Polyglot.Proofs.Pattern.Spans
import Polyglot.Proofs.Pattern.Matching
import Polyglot.Proofs.Rule.Guessing
import Polyglot.Proofs.Rule.Lines
import Polyglot.Proofs.Rule.LetterCase
import Polyglot.Proofs.Rule.Bias
import Polyglot.Proofs.Rule.Graphic
import Polyglot.Proofs.Text.Boundaries
import Polyglot.Proofs.Ranking.Sampling
import Polyglot.Proofs.Ranking.Rejected
import Polyglot.Proofs.Ranking.Order
import Polyglot.Proofs.Dispatch.Binary
import Polyglot.Proofs.Dispatch.Reporting
import Polyglot.Proofs.Ranking.Stopping
import Polyglot.Proofs.Ranking.Exact
import Polyglot.Proofs.Ranking.Gaining
import Polyglot.Proofs.Dispatch.Discretion
import Polyglot.Proofs.Launch.Precedence
import Polyglot.Proofs.Launch.Readiness
import Polyglot.Proofs.Double.Nearest
import Polyglot.Proofs.Double.Written
import Polyglot.Proofs.Double.Accumulated
import Polyglot.Proofs.Response.Reading
