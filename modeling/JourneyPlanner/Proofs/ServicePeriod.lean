import JourneyPlanner.Proofs.Travelling

/-!
Requests that are refused for their date. The period of a calendar reaches from the earliest
to the latest date that was ever added, whatever was removed since. A request is refused
exactly if none of the dates to be searched lies within the period, so that no date with
service is missed, not even at the ends of the range of dates.
-/

namespace JourneyPlanner

namespace ServiceCalendar

/-- A step in the making of a calendar. -/
inductive Change where
  | register (serviceId : String)
  | add (code : Nat) (date : Date)
  | remove (code : Nat) (date : Date)

def Change.added? : Change → Option Date
  | .add _ date => some date
  | .register _ | .remove _ _ => none

def change (c : ServiceCalendar) : Change → ServiceCalendar
  | .register serviceId => (c.register serviceId).2
  | .add code date => c.addDate code date
  | .remove code date => c.removeDate code date

/-- The calendar that all the changes have led to. -/
def ofChanges (changes : List Change) : ServiceCalendar :=
  changes.foldl change {}

/-- Every date that was ever added, for whatever service. -/
def addedDates (changes : List Change) : List Date :=
  changes.filterMap Change.added?

/-- Neither before the earliest nor after the latest date that was ever added. -/
structure Spans (changes : List Change) (date : Date) : Prop where
  earlier : ∃ d ∈ addedDates changes, d ≤ date
  later : ∃ d ∈ addedDates changes, date ≤ d

instance (changes : List Change) (date : Date) : Decidable (Spans changes date) :=
  decidable_of_iff ((∃ d ∈ addedDates changes, d ≤ date) ∧ ∃ d ∈ addedDates changes, date ≤ d)
    ⟨fun h => ⟨h.1, h.2⟩, fun h => ⟨h.earlier, h.later⟩⟩

/-- From the earliest to the latest of some dates; no period without any. -/
def IsPeriod (dates : List Date) : Option (Date × Date) → Prop
  | none => dates = []
  | some (first, last) => first ∈ dates ∧ last ∈ dates ∧ ∀ d ∈ dates, first ≤ d ∧ d ≤ last

variable {c : ServiceCalendar} {dates : List Date} {period : Option (Date × Date)}

theorem IsPeriod.extend (h : IsPeriod dates period) (date : Date) :
    IsPeriod (dates ++ [date]) (some (extend date period)) := by
  cases period with
  | none =>
      obtain rfl : dates = [] := h
      simp [IsPeriod, ServiceCalendar.extend, Date.le_iff_day_le]
  | some period =>
      obtain ⟨first, last⟩ := period
      obtain ⟨hfirst, hlast, hwithin⟩ := h
      simp only [IsPeriod, ServiceCalendar.extend, Date.min, Date.max, List.mem_append,
        List.mem_singleton, Date.le_iff_day_le] at hwithin ⊢
      refine ⟨?_, ?_, ?_⟩
      · split
        · exact .inl hfirst
        · exact .inr rfl
      · split
        · exact .inr rfl
        · exact .inl hlast
      · rintro d (hd | rfl)
        · have hd := hwithin d hd
          split <;> split <;> omega
        · split <;> split <;> omega

theorem IsPeriod.change (h : IsPeriod dates c.period) (x : Change) :
    IsPeriod (dates ++ x.added?.toList) (c.change x).period := by
  cases x with
  | register serviceId =>
      have hperiod : (c.register serviceId).2.period = c.period := by
        unfold ServiceCalendar.register
        split <;> rfl
      simpa [ServiceCalendar.change, Change.added?, hperiod] using h
  | add code date => exact h.extend date
  | remove code date => simpa [ServiceCalendar.change, Change.added?, removeDate] using h

/-- The period knows what was added and not what was removed. -/
theorem isPeriod_ofChanges (changes : List Change) :
    IsPeriod (addedDates changes) (ofChanges changes).period := by
  have hfrom : ∀ (dates : List Date) (c : ServiceCalendar), IsPeriod dates c.period →
      IsPeriod (dates ++ addedDates changes) (changes.foldl change c).period := by
    induction changes with
    | nil => simp [addedDates]
    | cons x changes ih =>
        intro dates c h
        have hrest := ih _ _ (h.change x)
        cases hx : x.added? <;> simpa [addedDates, hx] using hrest
  exact hfrom [] {} rfl

theorem spans_iff {changes : List Change} {first last : Date}
    (h : IsPeriod (addedDates changes) (some (first, last))) (date : Date) :
    Spans changes date ↔ first ≤ date ∧ date ≤ last := by
  obtain ⟨hfirst, hlast, hwithin⟩ := h
  constructor
  · rintro ⟨⟨d, hd, hle⟩, ⟨d', hd', hle'⟩⟩
    exact ⟨Int.le_trans (hwithin d hd).1 hle, Int.le_trans hle' (hwithin d' hd').2⟩
  · rintro ⟨hle, hle'⟩
    exact ⟨⟨first, hfirst, hle⟩, ⟨last, hlast, hle'⟩⟩

theorem running_register (c : ServiceCalendar) (serviceId : String) :
    (c.register serviceId).2.running = c.running := by
  unfold register
  split <;> rfl

/-- A service becomes active on a date only by being added to it. -/
theorem isActive_change {x : Change} {code : Nat} {date : Date}
    (h : (c.change x).isActive code date = true) :
    c.isActive code date = true ∨ x = .add code date := by
  cases x with
  | register serviceId => exact .inl (by simpa [change, isActive, running_register] using h)
  | add code' date' =>
      simp only [change, isActive, addDate, Association.find?_alter] at h ⊢
      by_cases hdate : date' = date
      · subst hdate
        rw [if_pos rfl] at h
        cases hfind : Association.find? date' c.running <;> grind
      · rw [if_neg hdate] at h
        exact .inl h
  | remove code' date' =>
      refine .inl ?_
      simp only [change, isActive, removeDate, Association.find?_adjust] at h ⊢
      by_cases hdate : date' = date
      · subst hdate
        rw [if_pos rfl] at h
        cases hfind : Association.find? date' c.running <;> grind
      · rwa [if_neg hdate] at h

theorem added_of_isActive {changes : List Change} {code : Nat} {date : Date}
    (h : (ofChanges changes).isActive code date = true) : date ∈ addedDates changes := by
  refine List.foldlRecOn changes change
    (motive := fun c => c.isActive code date = true → date ∈ addedDates changes) ?_ ?_ h
  · simp [isActive, Association.find?]
  · intro c ih x hx hactive
    rcases isActive_change hactive with hactive | rfl
    · exact ih hactive
    · exact List.mem_filterMap.mpr ⟨_, hx, rfl⟩

end ServiceCalendar

namespace Date

variable {d first last : Date} {before after : Nat} {dates : List Date}

section Windows

variable (hcount : before + after + 1 < 4294967296)

include hcount

/-- A window lies within the range of dates as a whole. -/
theorem inRange_window (h : d.window before after = .ok dates) :
    firstDayNumber ≤ d.day - before ∧ d.day + after ≤ lastDayNumber := by
  obtain ⟨first, hfirst, hlast, -⟩ := window_eq_ok h
  rw [Nat.mod_eq_of_lt hcount] at hlast
  exact ⟨hfirst ▸ first.inRange.1, by omega⟩

/-- A window reaches a period unless one ends before the other begins. -/
theorem exists_mem_window_iff (h : d.window before after = .ok dates) (hle : first ≤ last) :
    (∃ day ∈ dates, first ≤ day ∧ day ≤ last)
      ↔ d.day - before ≤ last.day ∧ first.day ≤ d.day + after := by
  rw [le_iff_day_le] at hle
  simp only [mem_window hcount h, daysUntil, le_iff_day_le]
  constructor
  · rintro ⟨day, hday, hfirst, hlast⟩
    omega
  · rintro ⟨hbefore, hafter⟩
    obtain ⟨hlow, hhigh⟩ := inRange_window hcount h
    -- the first date of both
    by_cases hstart : d.day - before ≤ first.day
    · exact ⟨first, by omega, Int.le_refl _, hle⟩
    · have hlast := last.inRange
      refine ⟨⟨d.day - before, by omega⟩, ?_, ?_, hbefore⟩
      · simp only
        omega
      · simp only
        omega

/-- Moving the ends of a period by the margins on the other side of the date, as far as there
are dates, compares the same. -/
theorem beyond_period_iff (h : d.window before after = .ok dates) (hle : first ≤ last) :
    (d < (first.addDays? (-(after : Int))).getD .first ∨ (last.addDays? before).getD .last < d)
      ↔ ¬ ∃ day ∈ dates, first ≤ day ∧ day ≤ last := by
  obtain ⟨hlow, hhigh⟩ := inRange_window hcount h
  have hrange := d.inRange
  have hfirst := first.inRange
  have hlast := last.inRange
  rw [exists_mem_window_iff hcount h hle]
  simp only [lt_iff_day_lt, day_addDays?_getD, Date.first, Date.last]
  omega

end Windows

end Date

namespace Request

open ServiceCalendar (Change addedDates ofChanges Spans isPeriod_ofChanges)

variable {r : Request} {settings : Settings} {t : Timetable} {changes : List Change}
  {dates : List Date}

/-- Of all the checks only the last one looks at the calendar. -/
theorem fault?_of_valid (h : r.fault? settings { t with calendar := .empty } = none) :
    r.fault? settings t = r.dateFault? settings t := by
  simp only [fault?, Option.or_eq_none_iff] at h
  obtain ⟨hwindow, htime, hstreet, hbanned, hcost, htransfers, hslack, -⟩ := h
  change r.streetFault? t = none at hstreet
  change r.bannedStops.findSome? (unknownStop? t) = none at hbanned
  simp only [fault?, hwindow, htime, hstreet, hbanned, hcost, htransfers, hslack, Option.none_or]

theorem dateFault?_eq_some_iff (hdays : settings.DaysFit) (hcalendar : t.calendar = ofChanges changes)
    (hwindow : r.date.window settings.searchDaysBefore settings.searchDaysAfter = .ok dates)
    {e : RequestFault} : r.dateFault? settings t = some e ↔
      e = .dateOutsideService r.date ∧ addedDates changes ≠ []
        ∧ ∀ d ∈ dates, ¬ Spans changes d := by
  have hperiod := isPeriod_ofChanges changes
  unfold dateFault?
  rw [hcalendar]
  cases hcase : (ofChanges changes).period with
  | none =>
      rw [hcase] at hperiod
      simp [show addedDates changes = [] from hperiod]
  | some period =>
      obtain ⟨first, last⟩ := period
      rw [hcase] at hperiod
      have hadded : addedDates changes ≠ [] := List.ne_nil_of_mem hperiod.1
      have hle : first ≤ last := (hperiod.2.2 last hperiod.2.1).1
      simp only [Date.beyond_period_iff hdays hwindow hle, ServiceCalendar.spans_iff hperiod,
        Option.ite_none_right_eq_some, Option.some_inj, not_exists, not_and]
      exact ⟨fun ⟨hnone, he⟩ => ⟨he.symm, hadded, hnone⟩, fun ⟨he, _, hnone⟩ => ⟨hnone, he.symm⟩⟩

end Request

namespace LastDates

open ServiceCalendar (Change)

def daysBeforeLast (days : Nat) (h : days ≤ 5 := by decide) : Date :=
  ⟨lastDayNumber - days, by unfold firstDayNumber lastDayNumber; omega⟩

/-- Close to the end of all dates a service was added to two of them and removed from one. -/
def changes : List Change :=
  [.register "W", .add 0 (daysBeforeLast 5), .add 0 (daysBeforeLast 4),
    .remove 0 (daysBeforeLast 4)]

def timetable : Timetable :=
  { ThreeLines.router.timetable with calendar := .ofChanges changes }

def request (date : Date) : Request :=
  { ThreeLines.request with date := date }

/-- The dates around the day before the last one. -/
def lastWindow : List Date :=
  [daysBeforeLast 2, daysBeforeLast 1, Date.last]

/-- Dates around one that comes too late for the service by two days. -/
def laterWindow : List Date :=
  [daysBeforeLast 4, daysBeforeLast 3, daysBeforeLast 2]

end LastDates

namespace CountlessDays

open ServiceCalendar (Change)

/-- Some days before the only day with service. -/
def request : Request :=
  { ThreeLines.request with date := ⟨19840, by decide⟩ }

def changes : List Change :=
  [.register "W", .add 0 ⟨19855, by decide⟩]

def timetable : Timetable :=
  { ThreeLines.router.timetable with calendar := .ofChanges changes }

/-- As many days after the request as 32 bits count. -/
def settings : Settings :=
  { searchDaysBefore := 1, searchDaysAfter := 4294967295 }

end CountlessDays

end JourneyPlanner
