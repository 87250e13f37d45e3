import JourneyPlanner.Trip.Basic
import Mathlib.Data.List.Basic

/-!
Trips that share columns. A pool gives back a value equal to the one looked up, whatever has been
looked up before. So a trip whose columns are taken from pools is the trip they were made of.
-/

namespace JourneyPlanner

namespace Flags

theorem mem_positions_ofList {row : List Bool} {i : Nat} :
    i ∈ (ofList row).positions ↔ row[i]? = some true := by
  simp only [ofList, List.mem_map, List.mem_filter]
  constructor
  · rintro ⟨⟨flag, j⟩, ⟨hmem, rfl⟩, rfl⟩
    exact List.mk_mem_zipIdx_iff_getElem?.mp hmem
  · intro h
    exact ⟨(true, i), ⟨List.mk_mem_zipIdx_iff_getElem?.mpr h, rfl⟩, rfl⟩

end Flags

namespace Pool

variable {α : Type} [BEq α] [LawfulBEq α]

/-- What a pool shares is what was asked for. -/
theorem share_value (p : Pool α) (value : α) : (p.share value).1.2 = value := by
  unfold share
  cases h : p.values.findIdx? (· == value) with
  | none => rfl
  | some i =>
      obtain ⟨hlt, hvalue, -⟩ := List.findIdx?_eq_some_iff_getElem.mp h
      simp only [List.getD_eq_getElem?_getD, List.getElem?_eq_getElem hlt, Option.getD_some]
      exact beq_iff_eq.mp hvalue

end Pool

/-- The calls of a trip column by column. -/
structure Columns where
  arrivals : List Time
  departures : List Time
  sequences : List Nat
  pickups : List PickDrop
  dropOffs : List PickDrop
  timepoints : Flags

namespace Columns

def ofSchedule (schedule : List ScheduledCall) : Columns where
  arrivals := schedule.map (·.arrival)
  departures := schedule.map (·.departure)
  sequences := schedule.map (·.sequence)
  pickups := schedule.map (·.pickup)
  dropOffs := schedule.map (·.dropOff)
  timepoints := .ofList (schedule.map (·.isTimepoint))

def call? (c : Columns) (i : Nat) : Option ScheduledCall := do
  return {
    arrival := ← c.arrivals[i]?
    departure := ← c.departures[i]?
    sequence := ← c.sequences[i]?
    pickup := ← c.pickups[i]?
    dropOff := ← c.dropOffs[i]?
    isTimepoint := c.timepoints.positions.contains i }

def schedule (c : Columns) : List ScheduledCall :=
  (List.range c.arrivals.length).filterMap c.call?

/-- Each column in place of itself, as it is found in the pools. -/
def share (c : Columns) (pools : Pools) : Columns × Pools :=
  let (arrivals, times) := pools.times.share c.arrivals
  let (departures, times) := times.share c.departures
  let (sequences, sequencePool) := pools.sequences.share c.sequences
  let (pickups, pickDrops) := pools.pickDrops.share c.pickups
  let (dropOffs, pickDrops) := pickDrops.share c.dropOffs
  let (timepoints, flags) := pools.flags.share c.timepoints
  ({ arrivals := arrivals.2, departures := departures.2, sequences := sequences.2,
     pickups := pickups.2, dropOffs := dropOffs.2, timepoints := timepoints.2 },
    { pools with
      times := times, sequences := sequencePool, pickDrops := pickDrops, flags := flags })

theorem call?_ofSchedule (schedule : List ScheduledCall) (i : Nat) :
    (ofSchedule schedule).call? i = schedule[i]? := by
  simp only [call?, ofSchedule, List.getElem?_map]
  cases h : schedule[i]? with
  | none => rfl
  | some call =>
      have hflag : (Flags.ofList (schedule.map (·.isTimepoint))).positions.contains i
          = call.isTimepoint := by
        rw [Bool.eq_iff_iff, List.contains_iff_mem, Flags.mem_positions_ofList,
          List.getElem?_map, h]
        simp
      simp only [hflag]
      rfl

theorem schedule_ofSchedule (schedule : List ScheduledCall) :
    (ofSchedule schedule).schedule = schedule := by
  have hlength : (ofSchedule schedule).arrivals.length = schedule.length := List.length_map _
  have hcalls : ∀ x ∈ schedule.zipIdx, (ofSchedule schedule).call? x.2 = some x.1 := by
    intro x hx
    rw [call?_ofSchedule, List.mem_zipIdx_iff_getElem?.mp hx]
  calc (ofSchedule schedule).schedule
    _ = (schedule.zipIdx.map (·.2)).filterMap (ofSchedule schedule).call? := by
      rw [Columns.schedule, hlength, List.zipIdx_map_snd, List.range_eq_range']
    _ = schedule.zipIdx.map (·.1) := by
      rw [List.filterMap_map]
      exact List.filterMap_eq_map_iff_forall_eq_some.mpr hcalls
    _ = schedule := List.zipIdx_map_fst 0 schedule

theorem share_columns (c : Columns) (pools : Pools) : (c.share pools).1 = c := by
  simp only [share, Pool.share_value]

end Columns

namespace Trip

/-- The trip made of what the pools share for its columns, with the pools after that. -/
def shared (t : Trip) (pools : Pools) : Trip × Pools :=
  let (headsigns, headsignPool) := match t.headsigns with
    | some hs =>
      let (found, pool) := pools.headsigns.share hs
      (some found.2, pool)
    | none => (none, pools.headsigns)
  let (columns, pools) := (Columns.ofSchedule t.schedule).share
    { pools with headsigns := headsignPool }
  ({ t with headsigns := headsigns, schedule := columns.schedule }, pools)

/-- A trip is the same with shared columns, whichever other trips share them. -/
theorem shared_eq (t : Trip) (pools : Pools) : t.shared pools = (t, t.shareColumns pools) := by
  cases h : t.headsigns with
  | none =>
      simp only [shared, h, Columns.share_columns, Columns.schedule_ofSchedule]
      simp only [shareColumns, h, Columns.share, Columns.ofSchedule]
      rw [← h]
  | some headsigns =>
      simp only [shared, h, Pool.share_value, Columns.share_columns, Columns.schedule_ofSchedule]
      simp only [shareColumns, h, Columns.share, Columns.ofSchedule]
      rw [← h]

end Trip
end JourneyPlanner
