import JourneyPlanner.Proofs.CivilDates
import JourneyPlanner.Proofs.RecordReading
import JourneyPlanner.Realtime.Update
import JourneyPlanner.Routing.Journey
import JourneyPlanner.Routing.Request
import JourneyPlanner.Routing.Settings

/-!
Documents read back: the records of a timetable, updates and what became of them, the parts of
requests without decimals, settings, and answers.
-/

namespace JourneyPlanner

open Json (ReadsBack)

namespace Json

/-- Numbers as wide as they are kept. -/
def IsTime (t : Time) : Prop :=
  leastTime ≤ t ∧ t ≤ greatestTime

def IsIndex (n : Nat) : Prop :=
  n ≤ greatestWord

def IsCount (n : Nat) : Prop :=
  n ≤ greatestSequence

instance (t : Time) : Decidable (IsTime t) :=
  inferInstanceAs (Decidable (_ ∧ _))

instance (n : Nat) : Decidable (IsIndex n) :=
  inferInstanceAs (Decidable (_ ≤ _))

instance (n : Nat) : Decidable (IsCount n) :=
  inferInstanceAs (Decidable (_ ≤ _))

theorem readsBack_time : ReadsBack .int readTime IsTime :=
  readsBack_int ..

theorem readsBack_index : ReadsBack (fun n : Nat => .int n) readIndex IsIndex :=
  readsBack_nat _

theorem readsBack_sequence : ReadsBack (fun n : Nat => .int n) readSequence IsCount :=
  readsBack_nat _

theorem readsBack_count : ReadsBack (fun n : Nat => .int n) readCount IsCount :=
  readsBack_nat _

end Json

namespace Clock

theorem isTime_of_ofFields? {hours minutes seconds : Int} {t : Time}
    (h : ofFields? hours minutes seconds = some t) : Json.IsTime t := by
  unfold ofFields? at h
  split at h
  case isTrue =>
    obtain rfl := Option.some.inj h
    have hlow := Int.le_bmod (x := hours * 3600 + minutes * 60 + seconds)
      (by decide : 0 < 4294967296)
    have hhigh := Int.bmod_lt (x := hours * 3600 + minutes * 60 + seconds)
      (by decide : 0 < 4294967296)
    exact ⟨hlow, Int.le_of_lt_add_one hhigh⟩
  case isFalse => exact absurd h nofun

theorem isTime_of_read? {cs : List Char} {t : Time} (h : read? cs = some t) : Json.IsTime t := by
  unfold read? at h
  split at h
  · exact isTime_of_ofFields? h
  · unfold readFields? at h
    split at h
    · simp only [Option.bind_eq_bind, Option.bind_eq_some_iff] at h
      obtain ⟨_, -, _, -, h⟩ := h
      exact isTime_of_ofFields? h
    · simp only [Option.bind_eq_bind, Option.bind_eq_some_iff] at h
      obtain ⟨_, -, _, -, _, -, h⟩ := h
      exact isTime_of_ofFields? h
    · exact absurd h nofun

end Clock

namespace Json

/-- Times are written as seconds, whatever they were read from. -/
theorem readsBack_clockTime : ReadsBack .int readClockTime IsTime where
  back h := readsBack_time.back h
  fits {j t} h := by
    unfold readClockTime at h
    split at h
    · split at h
      case h_1 hread => exact Except.ok.inj h ▸ Clock.isTime_of_read? hread
      case h_2 => exact absurd h nofun
    · exact readsBack_time.fits h

end Json

theorem PickDrop.readsBack : ReadsBack toJson ofCodeOrName fun _ => True where
  back {p} _ := by cases p <;> rfl
  fits _ := trivial

theorem Permission.readsBack : ReadsBack toJson ofJson fun _ => True :=
  Json.readsBack_choice fun p => by cases p <;> rfl

namespace StopTimeRecord

structure Fits (r : StopTimeRecord) : Prop where
  arrival : Json.IsTime r.arrival
  departure : Json.IsTime r.departure
  stopSequence : ∀ n, r.stopSequence = some n → Json.IsCount n

theorem readsBack : ReadsBack toJson ofJson Fits where
  back {r} h := by
    have hsequence := (Json.readsBack_sequence.nullable nofun).back h.stopSequence
    have hheadsign := (Json.readsBack_string.nullable nofun).back (a := r.headsign)
      fun _ _ => trivial
    refine Record.bind_written rfl (by decide) ?_
    simp [Record.find?, Json.readString, Json.readBool, Json.readsBack_clockTime.back h.arrival,
      Json.readsBack_clockTime.back h.departure, hsequence, hheadsign,
      PickDrop.readsBack.back trivial]
  fits {j r} h := by
    -- every field grants what its own number needs, the record collects it
    refine Record.fits_of_bind (fun _ =>
      Field.All.map (Record.all_required Json.readsBack_string) ?_
      |>.seq (Record.all_required Json.readsBack_clockTime)
      |>.seq (Record.all_required Json.readsBack_clockTime)
      |>.seq (Record.all_optional Json.readsBack_sequence nofun)
      |>.seq (Record.all_withDefault PickDrop.readsBack trivial)
      |>.seq (Record.all_withDefault PickDrop.readsBack trivial)
      |>.seq (Record.all_withDefault Json.readsBack_bool trivial)
      |>.seq (Record.all_optional Json.readsBack_string nofun)) h
    exact fun _ _ _ ha _ hd _ hs _ _ _ _ _ _ _ _ => ⟨ha, hd, hs⟩

end StopTimeRecord

namespace TripRecord

def Fits (r : TripRecord) : Prop :=
  ∀ s ∈ r.stopTimes, s.Fits

theorem readsBack : ReadsBack toJson ofJson Fits where
  back {r} h := by
    have hheadsign := (Json.readsBack_string.nullable nofun).back (a := r.headsign)
      fun _ _ => trivial
    have hstops := StopTimeRecord.readsBack.list.back h
    refine Record.bind_written rfl (by decide) ?_
    simp [Record.find?, Json.readString, hheadsign, hstops, Permission.readsBack.back trivial]
  fits {j r} h := by
    refine Record.fits_of_bind (fun _ =>
      Field.All.map (Record.all_required Json.readsBack_string) ?_
      |>.seq (Record.all_required Json.readsBack_string)
      |>.seq (Record.all_required Json.readsBack_string)
      |>.seq (Record.all_optional Json.readsBack_string nofun)
      |>.seq (Record.all_withDefault Permission.readsBack trivial)
      |>.seq (Record.all_withDefault Permission.readsBack trivial)
      |>.seq (Record.all_required StopTimeRecord.readsBack.list)) h
    exact fun _ _ _ _ _ _ _ _ _ _ _ _ _ hs => hs

end TripRecord

namespace FrequencyRecord

structure Fits (r : FrequencyRecord) : Prop where
  start : Json.IsTime r.start
  finish : Json.IsTime r.finish
  headway : Json.IsTime r.headway

theorem readsBack : ReadsBack toJson ofJson Fits where
  back {r} h := by
    refine Record.bind_written rfl (by decide) ?_
    simp [Record.find?, Json.readString, Json.readBool, Json.readsBack_clockTime.back h.start,
      Json.readsBack_clockTime.back h.finish, Json.readsBack_time.back h.headway]
  fits {j r} h := by
    refine Record.fits_of_bind (fun _ =>
      Field.All.map (Record.all_required Json.readsBack_string) ?_
      |>.seq (Record.all_required Json.readsBack_clockTime)
      |>.seq (Record.all_required Json.readsBack_clockTime)
      |>.seq (Record.all_required Json.readsBack_time)
      |>.seq (Record.all_withDefault Json.readsBack_bool trivial)) h
    exact fun _ _ _ hs _ hf _ hh _ _ => ⟨hs, hf, hh⟩

end FrequencyRecord

namespace StopRef

def Fits : StopRef → Prop
  | .position p => Json.IsIndex p
  | .sequence s => Json.IsCount s

theorem readsBack : ReadsBack toJson ofJson Fits where
  back {r} h := by
    cases r with
    | position p => exact Fallible.map_eq_ok.mpr ⟨p, Json.readsBack_index.back h, rfl⟩
    | sequence s => exact Fallible.map_eq_ok.mpr ⟨s, Json.readsBack_sequence.back h, rfl⟩
  fits {j r} h := by
    unfold ofJson at h
    split at h
    · obtain ⟨p, hp, rfl⟩ := Fallible.map_eq_ok.mp h
      exact Json.readsBack_index.fits hp
    · obtain ⟨s, hs, rfl⟩ := Fallible.map_eq_ok.mp h
      exact Json.readsBack_sequence.fits hs
    · exact absurd h nofun

end StopRef

namespace TripUpdate

def Fits : TripUpdate → Prop
  | .delay _ stop arrival departure _ => stop.Fits ∧ Json.IsTime arrival ∧ Json.IsTime departure
  | .times _ stop arrival departure _ =>
    stop.Fits ∧ (∀ t, arrival = some t → Json.IsTime t) ∧ ∀ t, departure = some t → Json.IsTime t
  | .cancelStop _ stop | .recorded _ stop => stop.Fits
  | .cancelTrip _ | .revert _ => True

theorem readsBack : ReadsBack toJson ofJson Fits where
  back {u} h := by
    cases u with
    | delay id stop arrival departure propagate =>
        obtain ⟨hstop, harrival, hdeparture⟩ := h
        refine Json.bind_tagged (by simp) ?_
        refine Record.bind_written rfl (by decide) ?_
        simp [Record.find?, Json.readString, Json.readBool, StopRef.readsBack.back hstop,
          Json.readsBack_time.back harrival, Json.readsBack_time.back hdeparture]
    | times id stop arrival departure inaccurate =>
        obtain ⟨hstop, harrival, hdeparture⟩ := h
        have htimes := Json.readsBack_time.nullable nofun
        refine Json.bind_tagged (by simp) ?_
        refine Record.bind_written rfl (by decide) ?_
        simp [Record.find?, Json.readString, Json.readBool, StopRef.readsBack.back hstop,
          htimes.back harrival, htimes.back hdeparture]
    | cancelStop id stop | recorded id stop =>
        refine Json.bind_tagged (by simp) ?_
        refine Record.bind_written rfl (by decide) ?_
        simp [Record.find?, Json.readString, StopRef.readsBack.back h]
    | cancelTrip id | revert id =>
        refine Json.bind_tagged (by simp) ?_
        refine Record.bind_written rfl (by decide) ?_
        simp [Record.find?, Json.readString]
  fits {j u} h := by
    obtain ⟨⟨tag, fields⟩, -, h⟩ := Fallible.bind_eq_ok.mp h
    simp only [ofTagged] at h
    split at h
    · refine Record.fits_of_bind (fun _ =>
        Field.All.map (Record.all_required Json.readsBack_string) ?_
        |>.seq (Record.all_required StopRef.readsBack)
        |>.seq (Record.all_required Json.readsBack_time)
        |>.seq (Record.all_required Json.readsBack_time)
        |>.seq (Record.all_withDefault Json.readsBack_bool trivial)) h
      exact fun _ _ _ hs _ ha _ hd _ _ => ⟨hs, ha, hd⟩
    · refine Record.fits_of_bind (fun _ =>
        Field.All.map (Record.all_required Json.readsBack_string) ?_
        |>.seq (Record.all_required StopRef.readsBack)
        |>.seq (Record.all_nullable Json.readsBack_time nofun)
        |>.seq (Record.all_nullable Json.readsBack_time nofun)
        |>.seq (Record.all_withDefault Json.readsBack_bool trivial)) h
      exact fun _ _ _ hs _ ha _ hd _ _ => ⟨hs, ha, hd⟩
    · refine Record.fits_of_bind (fun _ =>
        Field.All.map (Record.all_required Json.readsBack_string) ?_
        |>.seq (Record.all_required StopRef.readsBack)) h
      exact fun _ _ _ hs => hs
    · refine Record.fits_of_bind (fun _ =>
        Field.All.map (Record.all_required Json.readsBack_string) ?_) h
      exact fun _ _ => trivial
    · refine Record.fits_of_bind (fun _ =>
        Field.All.map (Record.all_required Json.readsBack_string) ?_
        |>.seq (Record.all_required StopRef.readsBack)) h
      exact fun _ _ _ hs => hs
    · refine Record.fits_of_bind (fun _ =>
        Field.All.map (Record.all_required Json.readsBack_string) ?_) h
      exact fun _ _ => trivial
    · exact absurd h nofun

end TripUpdate

theorem UpdateOutcome.readsBack : ReadsBack toJson ofJson fun _ => True :=
  Json.readsBack_choice fun o => by cases o <;> rfl

namespace BannedTrip

def Fits (b : BannedTrip) : Prop :=
  ∀ p ∈ b.positions, Json.IsIndex p

theorem readsBack : ReadsBack toJson ofJson Fits where
  back {b} h := by
    have hpositions := Json.readsBack_index.list.back h
    refine Record.bind_written rfl (by decide) ?_
    simp [Record.find?, Json.readString, Json.nats, hpositions]
  fits {j b} h := by
    refine Record.fits_of_bind (fun _ =>
      Field.All.map (Record.all_required Json.readsBack_string) ?_
      |>.seq (Record.all_withDefault Json.readsBack_index.list (by simp))) h
    exact fun _ _ _ hp => hp

end BannedTrip

theorem Criterion.readsBack : ReadsBack toJson ofJson fun _ => True :=
  Json.readsBack_choice fun c => by cases c <;> rfl

namespace DominancePolicy

theorem readsBack_order : ReadsBack (fun o => .arr [o.1.toJson, o.2.1.toJson, o.2.2.toJson])
    readOrder fun _ => True where
  back {o} _ := by
    have hlist := Criterion.readsBack.list.back (a := [o.1, o.2.1, o.2.2]) fun _ _ => trivial
    simp only [List.map_cons, List.map_nil] at hlist
    rw [readOrder, hlist]
  fits _ := trivial

theorem readsBack : ReadsBack toJson ofJson fun _ => True where
  back {p} _ := by
    have horder := readsBack_order.back (a := p.order) trivial
    refine Record.bind_written rfl (by decide) ?_
    simp [Record.find?, Json.readBool, criteria, horder]
  fits _ := trivial

end DominancePolicy

namespace Settings

structure Fits (s : Settings) : Prop where
  iterationStep : Json.IsTime s.iterationStep
  maxSearchWindow : Json.IsTime s.maxSearchWindow
  defaultSearchWindow : Json.IsTime s.defaultSearchWindow
  maxTransfersLimit : Json.IsIndex s.maxTransfersLimit
  defaultMaxTransfers : Json.IsIndex s.defaultMaxTransfers
  defaultBoardSlack : Json.IsTime s.defaultBoardSlack
  searchDaysBefore : Json.IsCount s.searchDaysBefore
  searchDaysAfter : Json.IsCount s.searchDaysAfter
  requestTimeout : ∀ n, s.requestTimeout = some n → Json.IsIndex n

theorem readsBack : ReadsBack toJson ofJson Fits where
  back {s} h := by
    have htimeout := (Json.readsBack_index.nullable nofun).back h.requestTimeout
    refine Record.bind_written rfl (by decide) ?_
    simp [ofRecord, Record.find?, Json.readsBack_time.back h.iterationStep,
      Json.readsBack_time.back h.maxSearchWindow, Json.readsBack_time.back h.defaultSearchWindow,
      Json.readsBack_index.back h.maxTransfersLimit,
      Json.readsBack_index.back h.defaultMaxTransfers,
      Json.readsBack_time.back h.defaultBoardSlack, Json.readsBack_count.back h.searchDaysBefore,
      Json.readsBack_count.back h.searchDaysAfter, htimeout]
  fits {j s} h := by
    refine Record.fits_of_bind (fun _ =>
      Field.All.map (Record.all_withDefault Json.readsBack_time (by decide)) ?_
      |>.seq (Record.all_withDefault Json.readsBack_time (by decide))
      |>.seq (Record.all_withDefault Json.readsBack_time (by decide))
      |>.seq (Record.all_withDefault Json.readsBack_index (by decide))
      |>.seq (Record.all_withDefault Json.readsBack_index (by decide))
      |>.seq (Record.all_withDefault Json.readsBack_time (by decide))
      |>.seq (Record.all_withDefault Json.readsBack_count (by decide))
      |>.seq (Record.all_withDefault Json.readsBack_count (by decide))
      |>.seq (Record.all_optional Json.readsBack_index nofun)) h
    exact fun _ h₁ _ h₂ _ h₃ _ h₄ _ h₅ _ h₆ _ h₇ _ h₈ _ h₉ => ⟨h₁, h₂, h₃, h₄, h₅, h₆, h₇, h₈, h₉⟩

end Settings

theorem Date.readsBack : ReadsBack toJson ofJson fun _ => True where
  back {d} _ := by rw [toJson, ofJson, read?_text]
  fits _ := trivial

structure Ride.Fits (r : Ride) : Prop where
  pattern : Json.IsIndex r.pattern
  fromStop : Json.IsIndex r.fromStop
  boardPosition : Json.IsIndex r.boardPosition
  toStop : Json.IsIndex r.toStop
  alightPosition : Json.IsIndex r.alightPosition
  startTime : Json.IsTime r.startTime
  endTime : Json.IsTime r.endTime
  cost : Json.IsIndex r.cost

namespace Leg

theorem readsBack_nat : ReadsBack nat Json.readIndex Json.IsIndex :=
  Json.readsBack_index

def Fits : Leg → Prop
  | .access stop startTime endTime cost | .egress stop startTime endTime cost =>
    Json.IsIndex stop ∧ Json.IsTime startTime ∧ Json.IsTime endTime ∧ Json.IsIndex cost
  | .transit r => r.Fits
  | .transfer fromStop toStop startTime endTime cost =>
    Json.IsIndex fromStop ∧ Json.IsIndex toStop ∧ Json.IsTime startTime ∧ Json.IsTime endTime
      ∧ Json.IsIndex cost

theorem fits_of_rideOfJson {j : Json} {r : Ride} (h : rideOfJson j = .ok r) : r.Fits := by
  refine Record.fits_of_bind (fun _ => Field.All.map (Record.all_required readsBack_nat) ?_
    |>.seq (Record.all_required Json.readsBack_string)
    |>.seq (Record.all_required Json.readsBack_string)
    |>.seq (Record.all_required Date.readsBack)
    |>.seq (Record.all_nullable Json.readsBack_string nofun)
    |>.seq (Record.all_required readsBack_nat)
    |>.seq (Record.all_required readsBack_nat)
    |>.seq (Record.all_required readsBack_nat)
    |>.seq (Record.all_required readsBack_nat)
    |>.seq (Record.all_required Json.readsBack_time)
    |>.seq (Record.all_required Json.readsBack_time)
    |>.seq (Record.all_required readsBack_nat)) h
  exact fun _ hp _ _ _ _ _ _ _ _ _ hf _ hb _ ht _ ha _ hs _ he _ hc =>
    ⟨hp, hf, hb, ht, ha, hs, he, hc⟩

theorem readsBack : ReadsBack toJson ofJson Fits where
  back {l} h := by
    cases l with
    | access stop startTime endTime cost =>
        obtain ⟨hstop, hstart, hend, hcost⟩ := h
        refine Json.bind_tagged (by simp) ?_
        refine Record.bind_written rfl (by decide) ?_
        simp [Record.find?, readsBack_nat.back hstop, Json.readsBack_time.back hstart,
          Json.readsBack_time.back hend, readsBack_nat.back hcost]
    | transit r =>
        have hheadsign := (Json.readsBack_string.nullable nofun).back (a := r.headsign)
          fun _ _ => trivial
        refine Json.bind_tagged (by simp) ?_
        refine Fallible.map_eq_ok.mpr ⟨r, ?_, rfl⟩
        refine Record.bind_written rfl (by decide) ?_
        simp [Record.find?, Json.readString, Date.readsBack.back trivial, hheadsign,
          readsBack_nat.back h.pattern, readsBack_nat.back h.fromStop,
          readsBack_nat.back h.boardPosition, readsBack_nat.back h.toStop,
          readsBack_nat.back h.alightPosition, Json.readsBack_time.back h.startTime,
          Json.readsBack_time.back h.endTime, readsBack_nat.back h.cost]
    | transfer fromStop toStop startTime endTime cost =>
        obtain ⟨hfrom, hto, hstart, hend, hcost⟩ := h
        refine Json.bind_tagged (by simp) ?_
        refine Record.bind_written rfl (by decide) ?_
        simp [Record.find?, readsBack_nat.back hfrom, readsBack_nat.back hto,
          Json.readsBack_time.back hstart, Json.readsBack_time.back hend, readsBack_nat.back hcost]
    | egress stop startTime endTime cost =>
        obtain ⟨hstop, hstart, hend, hcost⟩ := h
        refine Json.bind_tagged (by simp) ?_
        refine Record.bind_written rfl (by decide) ?_
        simp [Record.find?, readsBack_nat.back hstop, Json.readsBack_time.back hstart,
          Json.readsBack_time.back hend, readsBack_nat.back hcost]
  fits {j l} h := by
    obtain ⟨⟨tag, fields⟩, -, h⟩ := Fallible.bind_eq_ok.mp h
    simp only [ofTagged] at h
    split at h
    · refine Record.fits_of_bind (fun _ => Field.All.map (Record.all_required readsBack_nat) ?_
        |>.seq (Record.all_required Json.readsBack_time)
        |>.seq (Record.all_required Json.readsBack_time)
        |>.seq (Record.all_required readsBack_nat)) h
      exact fun _ hp _ hs _ he _ hc => ⟨hp, hs, he, hc⟩
    · obtain ⟨r, hr, rfl⟩ := Fallible.map_eq_ok.mp h
      exact fits_of_rideOfJson hr
    · refine Record.fits_of_bind (fun _ => Field.All.map (Record.all_required readsBack_nat) ?_
        |>.seq (Record.all_required readsBack_nat)
        |>.seq (Record.all_required Json.readsBack_time)
        |>.seq (Record.all_required Json.readsBack_time)
        |>.seq (Record.all_required readsBack_nat)) h
      exact fun _ hf _ ht _ hs _ he _ hc => ⟨hf, ht, hs, he, hc⟩
    · refine Record.fits_of_bind (fun _ => Field.All.map (Record.all_required readsBack_nat) ?_
        |>.seq (Record.all_required Json.readsBack_time)
        |>.seq (Record.all_required Json.readsBack_time)
        |>.seq (Record.all_required readsBack_nat)) h
      exact fun _ hp _ hs _ he _ hc => ⟨hp, hs, he, hc⟩
    · exact absurd h nofun

end Leg

namespace Itinerary

structure Fits (i : Itinerary) : Prop where
  legs : ∀ l ∈ i.legs, l.Fits
  departureTime : Json.IsTime i.departureTime
  arrivalTime : Json.IsTime i.arrivalTime
  transfers : Json.IsIndex i.transfers
  generalizedCost : Json.IsIndex i.generalizedCost

theorem readsBack : ReadsBack toJson ofJson Fits where
  back {i} h := by
    have hlegs := Leg.readsBack.list.back h.legs
    refine Record.bind_written rfl (by decide) ?_
    simp [Record.find?, hlegs, Json.readsBack_time.back h.departureTime,
      Json.readsBack_time.back h.arrivalTime, Leg.readsBack_nat.back h.transfers,
      Leg.readsBack_nat.back h.generalizedCost]
  fits {j i} h := by
    refine Record.fits_of_bind (fun _ => Field.All.map (Record.all_required Leg.readsBack.list) ?_
      |>.seq (Record.all_required Json.readsBack_time)
      |>.seq (Record.all_required Json.readsBack_time)
      |>.seq (Record.all_required Leg.readsBack_nat)
      |>.seq (Record.all_required Leg.readsBack_nat)) h
    exact fun _ hl _ hd _ ha _ ht _ hc => ⟨hl, hd, ha, ht, hc⟩

end Itinerary

theorem SearchStatus.readsBack : ReadsBack toJson ofJson fun _ => True :=
  Json.readsBack_choice fun s => by cases s <;> rfl

namespace SearchTimers

structure Fits (t : SearchTimers) : Prop where
  route : Json.IsIndex t.route
  transit : Json.IsIndex t.transit
  transfers : Json.IsIndex t.transfers

theorem readsBack : ReadsBack toJson ofJson Fits where
  back {t} h := by
    refine Record.bind_written rfl (by decide) ?_
    simp [Record.find?, Leg.readsBack_nat.back h.route, Leg.readsBack_nat.back h.transit,
      Leg.readsBack_nat.back h.transfers]
  fits {j t} h := by
    refine Record.fits_of_bind (fun _ => Field.All.map (Record.all_required Leg.readsBack_nat) ?_
      |>.seq (Record.all_required Leg.readsBack_nat)
      |>.seq (Record.all_required Leg.readsBack_nat)) h
    exact fun _ hr _ ht _ hw => ⟨hr, ht, hw⟩

end SearchTimers

namespace SearchReport

structure Fits (m : SearchReport) : Prop where
  windowStart : Json.IsTime m.windowStart
  windowEnd : Json.IsTime m.windowEnd
  iterations : Json.IsIndex m.iterations
  rounds : Json.IsIndex m.rounds
  acceptedArrivals : Json.IsIndex m.acceptedArrivals
  timers : m.timers.Fits

theorem readsBack : ReadsBack toJson ofJson Fits where
  back {m} h := by
    refine Record.bind_written rfl (by decide) ?_
    simp [Record.find?, Json.readsBack_time.back h.windowStart,
      Json.readsBack_time.back h.windowEnd, Leg.readsBack_nat.back h.iterations,
      Leg.readsBack_nat.back h.rounds, Leg.readsBack_nat.back h.acceptedArrivals,
      SearchTimers.readsBack.back h.timers]
  fits {j m} h := by
    refine Record.fits_of_bind (fun _ => Field.All.map (Record.all_required Json.readsBack_time) ?_
      |>.seq (Record.all_required Json.readsBack_time)
      |>.seq (Record.all_required Leg.readsBack_nat)
      |>.seq (Record.all_required Leg.readsBack_nat)
      |>.seq (Record.all_required Leg.readsBack_nat)
      |>.seq (Record.all_required SearchTimers.readsBack)) h
    exact fun _ hs _ he _ hi _ hr _ ha _ ht => ⟨hs, he, hi, hr, ha, ht⟩

end SearchReport

namespace Response

structure Fits (r : Response) : Prop where
  itineraries : ∀ i ∈ r.itineraries, i.Fits
  report : r.report.Fits

theorem readsBack : ReadsBack toJson ofJson Fits where
  back {r} h := by
    have hitineraries := Itinerary.readsBack.list.back h.itineraries
    refine Record.bind_written rfl (by decide) ?_
    simp [Record.find?, SearchStatus.readsBack.back trivial, hitineraries,
      SearchReport.readsBack.back h.report]
  fits {j r} h := by
    refine Record.fits_of_bind (fun _ =>
      Field.All.map (Record.all_required SearchStatus.readsBack) ?_
      |>.seq (Record.all_required Itinerary.readsBack.list)
      |>.seq (Record.all_required SearchReport.readsBack)) h
    exact fun _ _ _ hi _ hr => ⟨hi, hr⟩

end Response

/-- The documents that hold no decimals. -/
inductive DocumentKind where
  | stopTime
  | trip
  | frequency
  | stopRef
  | update
  | outcome
  | bannedTrip
  | policy
  | settings
  | leg
  | itinerary
  | response

namespace DocumentKind

abbrev Value : DocumentKind → Type
  | .stopTime => StopTimeRecord
  | .trip => TripRecord
  | .frequency => FrequencyRecord
  | .stopRef => StopRef
  | .update => TripUpdate
  | .outcome => UpdateOutcome
  | .bannedTrip => BannedTrip
  | .policy => DominancePolicy
  | .settings => Settings
  | .leg => Leg
  | .itinerary => Itinerary
  | .response => Response

def write : (k : DocumentKind) → k.Value → Json
  | .stopTime => StopTimeRecord.toJson
  | .trip => TripRecord.toJson
  | .frequency => FrequencyRecord.toJson
  | .stopRef => StopRef.toJson
  | .update => TripUpdate.toJson
  | .outcome => UpdateOutcome.toJson
  | .bannedTrip => BannedTrip.toJson
  | .policy => DominancePolicy.toJson
  | .settings => Settings.toJson
  | .leg => Leg.toJson
  | .itinerary => Itinerary.toJson
  | .response => Response.toJson

def read : (k : DocumentKind) → Json → Reading k.Value
  | .stopTime => StopTimeRecord.ofJson
  | .trip => TripRecord.ofJson
  | .frequency => FrequencyRecord.ofJson
  | .stopRef => StopRef.ofJson
  | .update => TripUpdate.ofJson
  | .outcome => UpdateOutcome.ofJson
  | .bannedTrip => BannedTrip.ofJson
  | .policy => DominancePolicy.ofJson
  | .settings => Settings.ofJson
  | .leg => Leg.ofJson
  | .itinerary => Itinerary.ofJson
  | .response => Response.ofJson

/-- No number is wider than it is kept. -/
def Fits : (k : DocumentKind) → k.Value → Prop
  | .stopTime => StopTimeRecord.Fits
  | .trip => TripRecord.Fits
  | .frequency => FrequencyRecord.Fits
  | .stopRef => StopRef.Fits
  | .update => TripUpdate.Fits
  | .outcome => fun _ => True
  | .bannedTrip => BannedTrip.Fits
  | .policy => fun _ => True
  | .settings => Settings.Fits
  | .leg => Leg.Fits
  | .itinerary => Itinerary.Fits
  | .response => Response.Fits

theorem readsBack : (k : DocumentKind) → ReadsBack k.write k.read k.Fits
  | .stopTime => StopTimeRecord.readsBack
  | .trip => TripRecord.readsBack
  | .frequency => FrequencyRecord.readsBack
  | .stopRef => StopRef.readsBack
  | .update => TripUpdate.readsBack
  | .outcome => UpdateOutcome.readsBack
  | .bannedTrip => BannedTrip.readsBack
  | .policy => DominancePolicy.readsBack
  | .settings => Settings.readsBack
  | .leg => Leg.readsBack
  | .itinerary => Itinerary.readsBack
  | .response => Response.readsBack

/-- Every value is read back from the document that was written, and of a document that was
read, whatever it looked like, the value is written, read and written again as the same
document. -/
theorem read_write (k : DocumentKind) :
    (∀ v, k.Fits v → k.read (k.write v) = .ok v)
      ∧ ∀ j v, k.read j = .ok v →
        k.Fits v ∧ (k.read (k.write v)).map k.write = .ok (k.write v) := by
  refine ⟨fun v hv => k.readsBack.back hv, fun j v hread => ?_⟩
  have hfits := k.readsBack.fits hread
  refine ⟨hfits, ?_⟩
  rw [k.readsBack.back hfits]
  rfl

/-- A time as a text, a numeric code, a field of no record and fields left out. -/
def looseStopTime : Json :=
  .obj [("departure", .str "24:30:00"), ("stop_id", .str "s"), ("platform", .str "3"),
    ("arrival", .int 88190), ("pickup", .int 3)]

/-- The same with every field as it is written. -/
def strictStopTime : Json :=
  .obj [("stop_id", .str "s"), ("arrival", .int 88190), ("departure", .int 88200),
    ("stop_sequence", .null), ("pickup", .str "coordinate_with_driver"),
    ("drop_off", .str "scheduled"), ("timepoint", .bool true), ("headsign", .null)]

theorem looseStopTime_rewritten :
    ∃ v, read .stopTime looseStopTime = .ok v ∧ Fits .stopTime v
      ∧ write .stopTime v = strictStopTime ∧ read .stopTime strictStopTime = .ok v
      ∧ (read .stopTime strictStopTime).map (write .stopTime) = .ok strictStopTime := by
  have hread : read .stopTime looseStopTime
      = .ok ⟨"s", 88190, 88200, none, .askDriver, .scheduled, true, none⟩ := by
    decide
  obtain ⟨hfits, hagain⟩ := (read_write .stopTime).2 _ _ hread
  exact ⟨_, hread, hfits, rfl, (read_write .stopTime).1 _ hfits, hagain⟩

end DocumentKind
end JourneyPlanner
