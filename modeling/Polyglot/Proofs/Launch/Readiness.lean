/-
What the readiness line says. Standard output holds it, as a line of its own, once if the daemon is
ready and else not at all. A daemon that is ready has gone through all stages before, with the options
that the command line and the environment ask for; a start that fails shows nothing of the stages
behind the failure. Which of its log lines are shown is up to the variable for the log: without
directives that are more specific than the program's own they are those that matter as `info` does.
-/
import Polyglot.Proofs.Launch.Lines
import Polyglot.Proofs.Log
import Polyglot.Proofs.Registry.History

namespace Polyglot.Launch

/-! ## The registry -/

/-- The event of making the backends. -/
def grammarsLoaded : Event := .grammarsLoaded 17

end Polyglot.Launch
