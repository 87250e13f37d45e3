import JourneyPlanner.CommandLine

/-!
The command line: reads the named files, runs, prints the answer on standard
output and everything else on standard error.
-/

namespace JourneyPlanner.CommandLine

def load (name : String) : IO Source := do
  try
    let text ← IO.FS.readFile name
    return ⟨name, some text⟩
  catch _ =>
    return ⟨name, none⟩

def loadOptional : Option String → IO (Option Source)
  | none => return none
  | some name => return some (← load name)

def loadInputs (options : Options) : IO Inputs := do
  return {
    settings := ← loadOptional (options.lookup "config")
    timetable := ← load ((options.lookup "timetable").getD "")
    updates := ← loadOptional (options.lookup "updates")
    request := ← load ((options.lookup "request").getD "") }

end JourneyPlanner.CommandLine

section

open JourneyPlanner.CommandLine

def main (words : List String) : IO UInt32 := do
  match readArguments words with
  | .error message =>
    IO.eprintln message
    IO.eprintln usage
    return 2
  | .ok options =>
    let (notices, result) := run (← loadInputs options)
    for notice in notices do
      IO.eprintln (JourneyPlanner.Text.forTerminal notice.line)
    match result with
    | .ok answer =>
      IO.println (outputText answer)
      return 0
    | .error failure =>
      unless failure.shown.isEmpty do
        IO.eprintln ("ERROR " ++ failure.shown)
      return UInt32.ofNat failure.exitCode

end
