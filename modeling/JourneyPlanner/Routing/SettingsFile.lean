import JourneyPlanner.Outline.Reader
import JourneyPlanner.Routing.Settings

/-!
Settings as an outline. Entries before the first heading belong to the program,
those under the router's heading to the router. Keys that are not known are
passed over.
-/

namespace JourneyPlanner

structure SettingsFile where
  /-- How many requests to route at a time. -/
  threads : Option Nat := none
  settings : Settings := {}

namespace SettingsFile

/-- A list of settings may go on behind the last one that is known. -/
def readSettings : Json → Reading Settings
  | .arr items => Settings.ofJson (.arr (items.take Settings.fieldNames.length))
  | j => Settings.ofJson j

def ofJson (j : Json) : Reading SettingsFile := do
  let r ← Record.ofJson ["threads", "raptor"] j
  r.finish <| SettingsFile.mk
    <$> r.optional "threads" Json.readIndex
    <*> r.withDefault "raptor" {} readSettings

def read? (text : String) : Option SettingsFile := do
  (ofJson (← Outline.read? text)).toOption

end SettingsFile
end JourneyPlanner
