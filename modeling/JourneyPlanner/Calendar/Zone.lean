import JourneyPlanner.Calendar.Date

/-!
Time zones as data: an offset from universal time that changes at listed
instants, or twice a year by a rule. Instants are seconds since 1970-01-01
00:00:00 universal time.
-/

namespace JourneyPlanner

abbrev Instant := Int

/-- From this instant on the zone has this offset, in seconds east. -/
structure OffsetChange where
  instant : Instant
  offset : Int

/-- A Sunday of a month: the first on or after a day, at some second of that
Sunday in universal time (negative: the day before). -/
structure YearlySunday where
  month : Nat
  earliestDay : Nat
  second : Int

/-- Daylight saving time between two changes of each year. -/
structure Season where
  starts : YearlySunday
  ends : YearlySunday
  standard : Int
  saving : Int
  firstYear : Int

structure Zone where
  name : String
  /-- Offset before the first change. -/
  initial : Int
  changes : List OffsetChange
  season : Option Season

namespace YearlySunday

/-- 1970-01-04 was a Sunday. -/
def instantIn (s : YearlySunday) (year : Int) : Instant :=
  let n := CivilDate.dayNumber ⟨year, s.month, s.earliestDay⟩
  (n + (3 - n) % 7) * 86400 + s.second

end YearlySunday

namespace Season

def changesIn (s : Season) (year : Int) : List OffsetChange :=
  let on : OffsetChange := ⟨s.starts.instantIn year, s.standard + s.saving⟩
  let off : OffsetChange := ⟨s.ends.instantIn year, s.standard⟩
  if year < s.firstYear then []
  else if on.instant ≤ off.instant then [on, off]
  else [off, on]

end Season

namespace Zone

/-- The changes that can govern an instant, ascending. -/
def changesBefore (z : Zone) (t : Instant) : List OffsetChange :=
  let year := (CivilDate.ofDayNumber (t / 86400)).year
  let yearly := match z.season with
    | none => []
    | some s => s.changesIn (year - 1) ++ s.changesIn year ++ s.changesIn (year + 1)
  (z.changes ++ yearly).filter fun c => decide (c.instant ≤ t)

def offsetAt (z : Zone) (t : Instant) : Int :=
  match (z.changesBefore t).getLast? with
  | some c => c.offset
  | none => z.initial

/-- Every offset the zone ever has, each once. -/
def offsets (z : Zone) : List Int :=
  (z.initial :: z.changes.map (·.offset) ++
    match z.season with
    | none => []
    | some s => [s.standard, s.standard + s.saving]).eraseDups

/-- The instants at which local clocks show `local` seconds since 1970-01-01. -/
def instantsAt (z : Zone) (clock : Int) : List Instant :=
  (z.offsets.map fun o => clock - o).filter fun t => t + z.offsetAt t == clock

def utc : Zone := ⟨"UTC", 0, [], none⟩

def oslo : Zone where
  name := "Europe/Oslo"
  initial := 3600
  changes := []
  season := some
    { starts := ⟨3, 25, 3600⟩, ends := ⟨10, 25, 3600⟩, standard := 3600, saving := 3600,
      firstYear := 1996 }

def newYork : Zone where
  name := "America/New_York"
  initial := -18000
  changes := []
  season := some
    { starts := ⟨3, 8, 25200⟩, ends := ⟨11, 1, 21600⟩, standard := -18000, saving := 3600,
      firstYear := 2007 }

def kolkata : Zone := ⟨"Asia/Kolkata", 19800, [], none⟩

def lordHowe : Zone where
  name := "Australia/Lord_Howe"
  initial := 36000
  changes := [⟨352216800, 37800⟩]
  season := some
    { starts := ⟨10, 1, -30600⟩, ends := ⟨4, 1, -32400⟩, standard := 37800, saving := 1800,
      firstYear := 2008 }

/-- Crossed the date line at the end of 2011-12-29. -/
def apia : Zone where
  name := "Pacific/Apia"
  initial := -39600
  changes :=
    [⟨1285498800, -36000⟩, ⟨1301752800, -39600⟩, ⟨1316872800, -36000⟩, ⟨1325239200, 50400⟩,
      ⟨1333202400, 46800⟩, ⟨1348927200, 50400⟩, ⟨1365256800, 46800⟩, ⟨1380376800, 50400⟩,
      ⟨1396706400, 46800⟩, ⟨1411826400, 50400⟩, ⟨1428156000, 46800⟩, ⟨1443276000, 50400⟩,
      ⟨1459605600, 46800⟩, ⟨1474725600, 50400⟩, ⟨1491055200, 46800⟩, ⟨1506175200, 50400⟩,
      ⟨1522504800, 46800⟩, ⟨1538229600, 50400⟩, ⟨1554559200, 46800⟩, ⟨1569679200, 50400⟩,
      ⟨1586008800, 46800⟩, ⟨1601128800, 50400⟩, ⟨1617458400, 46800⟩]
  season := none

def all : List Zone := [utc, oslo, newYork, kolkata, lordHowe, apia]

/-- Names are case-sensitive. -/
def named? (name : String) : Option Zone :=
  all.find? fun z => z.name == name

end Zone
end JourneyPlanner
