/-
Backends answer requests. A backend is a name and a function; what it needs of the process that it
runs in comes with each call. Both built-in backends work in tasks of their own, which are cancelled
if the process takes no more tasks and which may crash.
-/
import Polyglot.Ranking.Basic
import Polyglot.Request
import Polyglot.Rule.Guess
import Polyglot.Text.Quoted

namespace Polyglot

/-- A crash of a call in words. -/
def Crash.message : Crash → String
  | .text message => "panicked: " ++ message
  | .wordless => "panicked"

/-- What becomes of a call of a backend. -/
inductive Outcome where
  | predictions (list : List Prediction)
  | failure (failure : Failure)
  | crash (crash : Crash)

/-- What a call comes to: its outcome, what it logged, and how often it called a parser. -/
structure Reply where
  outcome : Outcome
  events : List Event
  parses : Nat

/-- The process that backends run in. -/
structure Host where
  grammars : Grammars
  /-- Whether tasks are still taken. -/
  takesTasks : Bool
  /-- The number of the next task, as a cancelled or crashed one is called. -/
  task : String

/-- Why a task did not come to its end. -/
inductive TaskFailure where
  | cancelled
  | crashed (crash : Crash)
  deriving DecidableEq, Repr

/-- The failure of a task in words; those that it crashed with are quoted. -/
def TaskFailure.message (task : String) : TaskFailure → String
  | .cancelled => "task " ++ task ++ " was cancelled"
  | .crashed (.text message) => "task " ++ task ++ " panicked with message " ++ Text.quoted message
  | .crashed .wordless => "task " ++ task ++ " panicked"

/-- Something that detects the language of a text. -/
structure Backend where
  /-- The selector that requests ask for it by. -/
  name : String
  detect : Host → (content : String) → (options : Members) → Reply

namespace Backend

/-- The name of the backend that ranks. -/
def rankingName : String := "vscode-languagedetection"

/-- The name of the backend that guesses by rules. -/
def rulesName : String := "vscode-regexp-languagedetection"

/-- A ranking task that did not come to its end. -/
def rankingTaskFailure (host : Host) (f : TaskFailure) : Outcome :=
  .failure (.model ("model task did not complete: " ++ f.message host.task))

/-- Ranks the languages by how well the content fits them. Options make no difference. -/
def ranking (limits : Ranking.Limits) : Backend where
  name := rankingName
  detect host content _ :=
    if host.takesTasks then
      let ranked := Ranking.run host.grammars limits content.toList
      let outcome := match ranked.result with
        | .ok predictions => .predictions predictions
        | .error (.failure f) => .failure (.model f.message)
        | .error (.crash crash) => rankingTaskFailure host (.crashed crash)
      ⟨outcome, [], ranked.calls⟩
    else ⟨rankingTaskFailure host .cancelled, [], 0⟩

/-- The guess as a list of predictions: one whose confidence was not estimated, or none. -/
def guessed : Option String → List Prediction
  | none => []
  | some language => [.unestimated language]

/-- A guessing task that did not come to its end. -/
def guessingTaskFailure (host : Host) (f : TaskFailure) : Outcome :=
  .failure (.backendInvocation rulesName ("rule task did not complete: " ++ f.message host.task))

/-- Guesses one language, the best of the candidates that `work` finds with the options as bias. -/
def guessing (work : Page → Members → Except Crash (List (String × Score))) : Backend where
  name := rulesName
  detect host content options :=
    if host.takesTasks then
      match work (Page.ofText content.toList) options with
      | .ok scores => ⟨.predictions (guessed ((Rule.best scores).map (·.1))),
          scores.map fun (language, score) => .ruleScore language score, 0⟩
      | .error crash => ⟨guessingTaskFailure host (.crashed crash), [], 0⟩
    else ⟨guessingTaskFailure host .cancelled, [], 0⟩

/-- Guesses one language by the rules of the table. -/
def rules : Backend := guessing fun page bias => .ok (Rule.candidates page bias)

/-- Makes the ranking backend, if no grammar is refused. -/
def loadRanking (grammars : Grammars) (limits : Ranking.Limits) :
    Except Failure (Backend × List Event) :=
  match grammars.firstRefusal Language.all with
  | some f => .error (.model f.message)
  | none => .ok (ranking limits, [.grammarsLoaded Language.all.length])

end Backend

end Polyglot
