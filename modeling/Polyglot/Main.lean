/-
The program. It starts as `Launch` says, with the options of the command line and the environment,
and then has one client, which holds the standard input and the standard output: a line is a text
frame, and so is every response. Hosts are taken by number only, and the grammars are lenient.
-/
import Polyglot.Dispatch
import Polyglot.Launch.Address
import Polyglot.Launch.Basic

namespace Polyglot.Program

/-- The values of the variables that are read. -/
def environment : IO (String → Option String) := do
  let names := Launch.logVariable :: Launch.Setting.all.map (·.environmentName)
  let values ← names.mapM fun name => do return (name, ← IO.getEnv name)
  return fun name => (values.lookup name).join

/-- Does what an effect says. -/
def perform (effect : Launch.Effect) : IO Unit := do
  if let some text := effect.outputText? then
    let output ← IO.getStdout
    output.putStr text
    output.flush
  if let some text := effect.errorText? then IO.eprintln text

/-- Answers the lines of the input, one after the other; `count` numbers the frames. -/
partial def serve (machine : Launch.Machine) (registry : Registry) (input output : IO.FS.Stream)
    (count : Nat) : IO Unit := do
  let line ← input.getLine
  unless line.isEmpty do
    let frame := line.toList.takeWhile (· != '\n')
    let handled := Dispatch.handle ⟨machine.grammars, true, toString count⟩ registry frame
    (machine.log (handled.events.map Event.line)).forM perform
    output.putStrLn handled.response
    output.flush
    serve machine registry input output (count + 1)

/-- Starts, and serves the client if the start succeeds. -/
def run (arguments : List String) : IO UInt32 := do
  let machine : Launch.Machine :=
    ⟨.lenient, ← environment, Launch.readLogVariable,
      fun host port => Launch.listenByNumber host (toString port), .takesAll⟩
  let (effects, ending) := Launch.start machine arguments
  effects.forM perform
  if let .ready options := ending then
    if let (.ok registry, _) := options.registry machine.grammars then
      let output ← IO.getStdout
      output.putStrLn Response.greeting
      output.flush
      serve machine registry (← IO.getStdin) output 1
  return UInt32.ofNat (ending.exitCode.getD 0)

end Polyglot.Program

def main (arguments : List String) : IO UInt32 := Polyglot.Program.run arguments
