import JourneyPlanner.Timetable.Record

/-!
Limits and defaults of a router, applied to every request.
-/

namespace JourneyPlanner

namespace Json

/-- A natural number of 32 bits. -/
def readCount : Json → Reading Nat :=
  readNatUpTo greatestSequence

end Json

structure Settings where
  /-- Seconds between two iterations of a range search. -/
  iterationStep : Time := 60
  maxSearchWindow : Time := 86400
  defaultSearchWindow : Time := 3600
  maxTransfersLimit : Nat := 12
  defaultMaxTransfers : Nat := 6
  defaultBoardSlack : Time := 0
  /-- Service days looked at before and after the request date. -/
  searchDaysBefore : Nat := 1
  searchDaysAfter : Nat := 1
  requestTimeout : Option Nat := none
  deriving DecidableEq

namespace Settings

def fieldNames : List String :=
  ["iteration_step", "max_search_window", "default_search_window", "max_transfers_limit",
    "default_max_transfers", "default_board_slack", "search_days_before", "search_days_after",
    "request_timeout_ms"]

def toJson (s : Settings) : Json :=
  .obj
    [("iteration_step", .int s.iterationStep), ("max_search_window", .int s.maxSearchWindow),
      ("default_search_window", .int s.defaultSearchWindow),
      ("max_transfers_limit", .int (Int.ofNat s.maxTransfersLimit)),
      ("default_max_transfers", .int (Int.ofNat s.defaultMaxTransfers)),
      ("default_board_slack", .int s.defaultBoardSlack),
      ("search_days_before", .int (Int.ofNat s.searchDaysBefore)),
      ("search_days_after", .int (Int.ofNat s.searchDaysAfter)),
      ("request_timeout_ms", Json.nullable (fun n => .int (Int.ofNat n)) s.requestTimeout)]

/-- Every setting that is not given keeps its default. -/
def ofRecord (r : Record) : Reading Settings :=
  r.finish <| Settings.mk
    <$> r.withDefault "iteration_step" 60 Json.readTime
    <*> r.withDefault "max_search_window" 86400 Json.readTime
    <*> r.withDefault "default_search_window" 3600 Json.readTime
    <*> r.withDefault "max_transfers_limit" 12 Json.readIndex
    <*> r.withDefault "default_max_transfers" 6 Json.readIndex
    <*> r.withDefault "default_board_slack" 0 Json.readTime
    <*> r.withDefault "search_days_before" 1 Json.readCount
    <*> r.withDefault "search_days_after" 1 Json.readCount
    <*> r.optional "request_timeout_ms" Json.readIndex

def ofJson (j : Json) : Reading Settings := do
  ofRecord (← Record.ofJson fieldNames j)

end Settings
end JourneyPlanner
