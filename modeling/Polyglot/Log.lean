/-
Which log lines are shown. A directive is about the lines from a part of the program and says how much
they have to matter. For a line there may be several; the most specific one decides, however much or
little the others ask for.
-/
namespace Polyglot

/-- How much a log line matters. -/
inductive Level where
  | error | warn | info | debug | trace
  deriving DecidableEq, Repr

namespace Level

/-- All levels, those that matter most first. -/
def all : List Level := [error, warn, info, debug, trace]

/-- The level as log lines show it. -/
def name : Level → String
  | error => "ERROR"
  | warn => "WARN"
  | info => "INFO"
  | debug => "DEBUG"
  | trace => "TRACE"

/-- The place of the level among all levels. -/
def rank : Level → Nat
  | error => 1
  | warn => 2
  | info => 3
  | debug => 4
  | trace => 5

end Level

namespace Log

/-- A log line. -/
structure Line where
  level : Level
  /-- The part of the program that the line is from. -/
  target : String
  message : String
  deriving DecidableEq, Repr

/-- The line as it is shown, without its time. -/
def Line.text (line : Line) : String :=
  line.level.name ++ " " ++ line.target ++ ": " ++ line.message

/-- The one field that log lines have. -/
def messageField : String := "message"

/-- What is asked of log lines. -/
structure Directive where
  /-- The directive is about lines with targets that begin so; if there is none, about all lines. -/
  target : Option String
  /-- The directive is about lines with this field. -/
  field : Option String
  /-- The level that lines are shown up to; none are shown if there is none. -/
  limit : Option Level
  deriving DecidableEq, Repr

namespace Directive

/-- Whether the directive is about the lines of a target. -/
def cares (d : Directive) (target : String) : Bool :=
  (d.target.all fun part => part.toList.isPrefixOf target.toList) &&
    d.field.all (· == messageField)

/-- How much the directive asks for: the length of the target counts first, and then the field. -/
def specificity (d : Directive) : Nat :=
  2 * (d.target.elim 0 fun part => part.utf8ByteSize + 1) + d.field.elim 0 fun _ => 1

/-- Whether the directive has lines of a level shown. -/
def allows (d : Directive) (level : Level) : Bool := d.limit.any fun limit => level.rank ≤ limit.rank

end Directive

/-- The most specific of the directives, and the last one of those that are equally specific. -/
def mostSpecific? : List Directive → Option Directive
  | [] => none
  | d :: rest =>
    match mostSpecific? rest with
    | none => some d
    | some later => if later.specificity < d.specificity then some d else some later

/-- Whether a line is shown. -/
def shows (directives : List Directive) (line : Line) : Bool :=
  (mostSpecific? (directives.filter (·.cares line.target))).any (·.allows line.level)

/-- The part of the program that does the work. -/
def serverTarget : String := "langdetect_server"

/-- The part of the program that starts it. -/
def daemonTarget : String := "langdetect_daemon"

/-- What the program asks of the lines of its work. -/
def serverDirective : Directive := ⟨some serverTarget, none, some .info⟩

/-- What it asks of the lines of its start. -/
def daemonDirective : Directive := ⟨some daemonTarget, none, some .info⟩

/-- The directives that the program adds to all others, behind them. -/
def own : List Directive := [serverDirective, daemonDirective]

end Log

end Polyglot
