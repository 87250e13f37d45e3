import JourneyPlanner.Json.Reader
import JourneyPlanner.Json.Writer
import JourneyPlanner.Realtime.Feed
import JourneyPlanner.Routing.Router
import JourneyPlanner.Routing.SettingsFile
import JourneyPlanner.Text.Terminal
import JourneyPlanner.Timetable.Document

/-!
The program on the command line: it reads a timetable, applies real-time updates
and routes one request or a list of them. A single request that cannot be routed
fails the run; within a list it only has an answer of its own, unless it ends the
program.
-/

namespace JourneyPlanner.CommandLine

/-- A file that was named, with its text if it can be read. -/
structure Source where
  name : String
  text : Option String

structure Inputs where
  settings : Option Source := none
  timetable : Source
  updates : Option Source := none
  request : Source

inductive Failure where
  | unreadable (name : String)
  | notJson (name : String)
  | badSettings (name : String)
  | document (fault : DocumentFault)
  | routing (fault : Fault)
  /-- The program ended during the search. -/
  | aborted

namespace Failure

/-- Some faults leave nothing to report. -/
def ofFault (f : Fault) : Failure :=
  if f.isFatal then .aborted else .routing f

def exitCode : Failure → Nat
  | .aborted => 101
  | _ => 1

def message : Failure → String
  | .unreadable name => "cannot read " ++ name
  | .notJson name => "invalid JSON in " ++ name
  | .badSettings name => "invalid config " ++ name
  | .document f => f.message
  | .routing f => f.message
  | .aborted => ""

/-- The message as a terminal shows it. -/
def shown (f : Failure) : String :=
  Text.forTerminal f.message

end Failure

inductive Requests where
  | one (r : Request)
  | many (rs : List Request)

namespace Requests

/-- What reads as one request is one, also a list of its fields. -/
def ofJson (j : Json) : Reading Requests :=
  match Request.ofJson j with
  | .ok r => .ok (.one r)
  | .error _ => (Json.readList Request.ofJson j).map .many

end Requests

def readText (s : Source) : Except Failure String :=
  match s.text with
  | some text => .ok text
  | none => .error (.unreadable s.name)

def readJson {α : Type} (parse : String → Option Json) (read : Json → Reading α) (s : Source) :
    Except Failure α := do
  let text ← readText s
  match parse text with
  | none => .error (.notJson s.name)
  | some j =>
    match read j with
    | .ok a => .ok a
    | .error _ => .error (.notJson s.name)

def readSettings : Option Source → Except Failure Settings
  | none => .ok {}
  | some s => do
    let text ← readText s
    match SettingsFile.read? text with
    | some f => .ok f.settings
    | none => .error (.badSettings s.name)

/-- Members that a timetable does not know may be unreadable. -/
def readTimetable (s : Source) : List Notice × Except Failure Timetable :=
  match readJson Json.document? TimetableDocument.ofJson s with
  | .error e => ([], .error e)
  | .ok document =>
    match document.build with
    | (notices, .error e) => (notices, .error (.document e))
    | (notices, .ok timetable) => (notices, .ok timetable)

def applyUpdates (f : Feed) : Option Source → Except Failure (List Notice × Feed)
  | none => .ok ([], f)
  | some s => do
    let updates ← readJson Json.parse? (Json.readList TripUpdate.ofJson) s
    let (f, _, notices) := f.applyUpdates updates
    return (notices, f)

/-- The answer to one request of a list. -/
def itemJson : Except Fault Response → Except Failure Json
  | .ok response => .ok response.toJson
  | .error e =>
    if e.isFatal then .error .aborted
    else .ok (.obj [("error", .str e.message), ("client_error", .bool e.isClientFault)])

def routeAll (x : Router) : Requests → Except Failure Json
  | .one r =>
    match x.route r with
    | .ok response => .ok response.toJson
    | .error e => .error (Failure.ofFault e)
  | .many rs => ((x.routeMany rs).mapM itemJson).map .arr

/-- Runs with the timetable at hand: updates, then requests. -/
def answer (settings : Settings) (timetable : Timetable) (i : Inputs) :
    List Notice × Except Failure Json :=
  match applyUpdates { timetable := timetable } i.updates with
  | .error e => ([], .error e)
  | .ok (notices, f) =>
    let router : Router :=
      { timetable := f.timetable, snapshot := f.snapshot, settings := settings }
    (notices, readJson Json.parse? Requests.ofJson i.request >>= routeAll router)

/-- The answer of the program, or why there is none, with what it has to tell. -/
def run (i : Inputs) : List Notice × Except Failure Json :=
  match readSettings i.settings with
  | .error e => ([], .error e)
  | .ok settings =>
    match readTimetable i.timetable with
    | (notices, .error e) => (notices, .error e)
    | (notices, .ok timetable) =>
      let (more, result) := answer settings timetable i
      (notices ++ more, result)

/-- The text of an answer, with the members of every object in order. -/
def outputText (j : Json) : String :=
  j.canonical.pretty

/-- The options given, by name. -/
abbrev Options := List (String × String)

def optionNames : List String :=
  ["config", "timetable", "updates", "request", "threads"]

def usage : String :=
  "usage: --timetable FILE --request FILE [--updates FILE] [--config FILE] [--threads N]"

def addOption (name value : String) (options : Options) : Except String Options :=
  if !optionNames.contains name then .error ("unknown option --" ++ name)
  else if options.any fun o => o.1 == name then .error ("option --" ++ name ++ " given twice")
  else if name = "threads" ∧ (Text.natural? value.toList).isNone then
    .error ("not a number of threads: " ++ value)
  else .ok (options ++ [(name, value)])

/-- An option and its value are two words, or one with an equals sign. -/
def readOptions : List String → Options → Except String Options
  | [], options => .ok options
  | word :: words, options =>
    match word.toList with
    | '-' :: '-' :: cs =>
      let name := String.ofList (cs.takeWhile (· != '='))
      match cs.dropWhile (· != '='), words with
      | _ :: value, words => do
        readOptions words (← addOption name (String.ofList value) options)
      | [], value :: words => do
        readOptions words (← addOption name value options)
      | [], [] => .error ("option --" ++ name ++ " needs a value")
    | _ => .error ("unexpected argument " ++ word)

/-- The names of the files to read, or what is wrong with the arguments. -/
def readArguments (words : List String) : Except String Options := do
  let options ← readOptions words []
  if (options.lookup "timetable").isNone then .error "option --timetable is missing"
  else if (options.lookup "request").isNone then .error "option --request is missing"
  else return options

end JourneyPlanner.CommandLine
