/-
Which directive decides about a log line. It is one that is about the line and that none of the
others is more specific than, nor as specific and behind it. So the program's own directives, which
stand behind all others, decide about its lines unless somebody asks for more: with a longer target
or with a field.
-/
import Polyglot.Event
import Mathlib.Data.List.Basic

namespace Polyglot.Log

variable {directives : List Directive} {d : Directive}

section Own

variable {line : Line} {o : Directive} (ho : own.filter (·.cares line.target) = [o])

include ho

end Own

end Polyglot.Log
