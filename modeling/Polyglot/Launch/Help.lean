/-
The help text of the daemon: each option with its value, what it is for, its variable with the value
that the environment gives it, and its default.
-/
import Polyglot.Launch.Options

namespace Polyglot.Launch

/-- The name of the program. -/
def programName : String := "langdetect-daemon"

/-- Puts a text below others: every line after the first is moved in by ten columns. -/
def movedIn (text : String) : String :=
  String.ofList (text.toList.flatMap fun c =>
    if c == '\n' then '\n' :: List.replicate 10 ' ' else [c])

/-- The variable of a setting and its value, as the help shows them. -/
def variableNote (environment : String → Option String) (s : Setting) : String :=
  let value := Text.plain ((environment s.environmentName).getD "")
  "[env: " ++ s.environmentName ++ "=" ++ value ++ "]"

/-- The two lines of an option. -/
def helpLines (environment : String → Option String) (s : Setting) : String :=
  (if s = .port then "  -p, " else "      ") ++ s.usage ++ "\n          " ++
    movedIn (s.about ++ " " ++ variableNote environment s ++ " [default: " ++ s.defaultText ++
      "]") ++ "\n"

/-- The help text. -/
def helpText (environment : String → Option String) : String :=
  "Programming-language detection over WebSocket\n\nUsage: " ++ programName ++
    " [OPTIONS]\n\nOptions:\n" ++ String.join (Setting.all.map (helpLines environment)) ++
    "  -h, --help\n          Print help\n"

end Polyglot.Launch
