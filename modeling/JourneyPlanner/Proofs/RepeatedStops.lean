import JourneyPlanner.Proofs.Records
import JourneyPlanner.Timetable.Document

/-!
Documents with several records of one stop. The first of them says where the stop stands and what
it is called, but its priority is that of the last one. Everything else is as if there were only
the first records.
-/

namespace JourneyPlanner

namespace StopRecord

/-- Records of stops that no earlier record is of. -/
def firstDefinitions : List StopRecord → List StopRecord
  | [] => []
  | s :: rest => s :: (firstDefinitions rest).filter fun s' => s'.stopId != s.stopId

/-- The priority in the last record of a stop. -/
def latestPriority (records : List StopRecord) (stopId : String) : TransferPriority :=
  ((records.filter fun s => s.stopId == stopId).getLast?.map (·.priority)).getD .allowed

/-- The stop whose first record is given. -/
def toStop (records : List StopRecord) (s : StopRecord) : Stop where
  stopId := s.stopId
  name := s.name
  priority := latestPriority records s.stopId

/-- The stops that records come to. -/
def definedStops (records : List StopRecord) : List Stop :=
  (firstDefinitions records).map (toStop records)

variable {records : List StopRecord} {s : StopRecord} {stopId : String}

theorem nodup_firstDefinitions (records : List StopRecord) :
    ((firstDefinitions records).map StopRecord.stopId).Nodup := by
  induction records with
  | nil => exact .nil
  | cons s rest ih =>
      rw [firstDefinitions, List.map_cons, List.nodup_cons]
      exact ⟨by simp, ih.sublist (List.filter_sublist.map _)⟩

/-- Records of different stops are all first ones. -/
theorem firstDefinitions_of_nodup (h : (records.map StopRecord.stopId).Nodup) :
    firstDefinitions records = records := by
  induction records with
  | nil => rfl
  | cons s rest ih =>
      rw [List.map_cons, List.nodup_cons] at h
      rw [firstDefinitions, ih h.2, List.filter_eq_self.mpr]
      intro s' hs'
      exact bne_iff_ne.mpr fun hid => h.1 (hid ▸ List.mem_map_of_mem hs')

/-- A record is a first one unless an earlier one is of the same stop. -/
theorem firstDefinitions_append_singleton (records : List StopRecord) (s : StopRecord) :
    firstDefinitions (records ++ [s]) = firstDefinitions records
      ++ if records.any (·.stopId == s.stopId) then [] else [s] := by
  induction records with
  | nil => rfl
  | cons first rest ih =>
      rw [List.cons_append, firstDefinitions, ih, firstDefinitions, List.filter_append,
        List.cons_append, List.any_cons]
      by_cases hid : first.stopId = s.stopId
      · cases rest.any (·.stopId == s.stopId) <;> simp [hid]
      · cases rest.any (·.stopId == s.stopId) <;> simp [hid, Ne.symm hid]

theorem any_firstDefinitions (records : List StopRecord) (stopId : String) :
    (firstDefinitions records).any (·.stopId == stopId) = records.any (·.stopId == stopId) := by
  induction records with
  | nil => rfl
  | cons first rest ih =>
      rw [firstDefinitions, List.any_cons, List.any_cons, ← ih, List.any_filter]
      by_cases hid : first.stopId = stopId
      · simp [hid]
      · congr 2
        funext s
        by_cases hs : s.stopId = stopId
        · simp [hs, Ne.symm hid]
        · simp [hs]

theorem latestPriority_append_singleton (records : List StopRecord) (s : StopRecord)
    (stopId : String) : latestPriority (records ++ [s]) stopId
      = if s.stopId = stopId then s.priority else latestPriority records stopId := by
  by_cases hid : s.stopId = stopId <;> simp [latestPriority, List.filter_append, hid]

/-- Of a stop with one record that record is the last one, too. -/
theorem latestPriority_of_nodup (h : (records.map StopRecord.stopId).Nodup) (hs : s ∈ records) :
    latestPriority records s.stopId = s.priority := by
  have hmem : s ∈ records.filter fun s' => s'.stopId == s.stopId := by simp [hs]
  obtain ⟨last, hlast⟩ : ∃ last, (records.filter fun s' => s'.stopId == s.stopId).getLast?
      = some last := ⟨_, List.getLast?_eq_some_getLast (List.ne_nil_of_mem hmem)⟩
  obtain ⟨hlast', hid⟩ := List.mem_filter.mp (List.mem_of_getLast? hlast)
  rw [latestPriority, hlast, List.inj_on_of_nodup_map h hlast' hs (beq_iff_eq.mp hid)]
  rfl

theorem definedStops_append_singleton (records : List StopRecord) (s : StopRecord) :
    definedStops (records ++ [s]) = (definedStops records ++ if records.any (·.stopId == s.stopId)
        then [] else [({ stopId := s.stopId, name := s.name } : Stop)]).map
      fun x => if x.stopId = s.stopId then { x with priority := s.priority } else x := by
  have hstop : ∀ s', toStop (records ++ [s]) s' = if (toStop records s').stopId = s.stopId
      then { toStop records s' with priority := s.priority } else toStop records s' := by
    intro s'
    simp only [toStop, latestPriority_append_singleton, eq_comm (a := s.stopId)]
    split <;> rename_i hid <;> simp [hid]
  rw [definedStops, firstDefinitions_append_singleton, List.map_append, List.map_append,
    definedStops, List.map_map, List.map_congr_left fun s' _ => hstop s']
  congr 1
  split
  · rfl
  · simp [toStop, latestPriority_append_singleton]

theorem nodup_definedStops (records : List StopRecord) :
    ((definedStops records).map Stop.stopId).Nodup := by
  rw [definedStops, List.map_map]
  exact nodup_firstDefinitions records

/-- The stops of first records alone have the priorities of these. -/
theorem definedStops_firstDefinitions (records : List StopRecord) :
    definedStops (firstDefinitions records)
      = (firstDefinitions records).map fun s => ⟨s.stopId, s.name, s.priority⟩ := by
  rw [definedStops, firstDefinitions_of_nodup (nodup_firstDefinitions records)]
  refine List.map_congr_left fun s hs => ?_
  rw [toStop, latestPriority_of_nodup (nodup_firstDefinitions records) hs]

theorem definedStops_eq_iff (records : List StopRecord) :
    definedStops records = ((firstDefinitions records).map fun s => ⟨s.stopId, s.name, s.priority⟩)
      ↔ ∀ s ∈ firstDefinitions records, latestPriority records s.stopId = s.priority := by
  simp only [definedStops, List.map_inj_left, toStop, Stop.mk.injEq, true_and]

end StopRecord

namespace Builder

/-- The builder with other stops, whatever has been noticed about them. -/
def withStops (b : Builder) (stops : Array Stop) (notices : Array Notice) : Builder :=
  { b with stops := stops, notices := notices }

theorem modify_findIdx? {stops : List Stop} (h : (stops.map Stop.stopId).Nodup) {stopId : String}
    {index : Nat} (hfind : stops.findIdx? (fun s => s.stopId == stopId) = some index)
    (f : Stop → Stop) :
    stops.modify index f = stops.map fun s => if s.stopId = stopId then f s else s := by
  induction stops generalizing index with
  | nil => simp at hfind
  | cons s rest ih =>
      rw [List.map_cons, List.nodup_cons] at h
      rw [List.findIdx?_cons] at hfind
      by_cases hid : s.stopId = stopId
      · subst hid
        simp only [beq_self_eq_true, if_true, Option.some_inj] at hfind
        subst hfind
        have hrest : (rest.map fun s' => if s'.stopId = s.stopId then f s' else s') = rest := by
          refine (List.map_congr_left fun s' hs' => if_neg ?_).trans (List.map_id' rest)
          exact fun hid => h.1 (hid ▸ List.mem_map_of_mem hs')
        simp [hrest]
      · simp only [beq_iff_eq, hid, if_false, Option.map_eq_some_iff] at hfind
        obtain ⟨i, hi, rfl⟩ := hfind
        simp [hid, ih h.2 hi]

open StopRecord

theorem findStop?_isSome_iff {b : Builder} {records : List StopRecord}
    (h : b.stops.toList = definedStops records) (stopId : String) :
    (b.findStop? stopId).isSome = records.any (·.stopId == stopId) := by
  rw [findStop?, h, definedStops, List.findIdx?_isSome, List.any_map, ← any_firstDefinitions]
  rfl

/-- A stop that is not known yet is the next one, and in any case it is known then. -/
theorem addStop_eq (b : Builder) (stopId : String) (name : Option String) :
    ∃ stops notices, (b.addStop stopId name).2 = b.withStops stops notices
      ∧ stops.toList = b.stops.toList
        ++ (if (b.findStop? stopId).isSome then [] else [{ stopId := stopId, name := name }])
      ∧ ((b.withStops stops notices).findStop? stopId).isSome = true := by
  unfold addStop
  cases hfind : b.findStop? stopId with
  | some index =>
      refine ⟨b.stops, _, rfl, by simp, ?_⟩
      exact Option.isSome_iff_exists.mpr ⟨index, hfind⟩
  | none =>
      refine ⟨_, b.notices, rfl, by simp, ?_⟩
      simp [withStops, findStop?, List.findIdx?_append]

/-- A further record makes the next stop, or changes the priority of the one it is of. -/
theorem setPriority_addStop {b : Builder} {earlier : List StopRecord}
    (h : b.stops.toList = definedStops earlier) (s : StopRecord) :
    ∃ stops notices, (b.addStop s.stopId s.name).2.setPriority s.stopId s.priority
        = .ok (b.withStops stops notices)
      ∧ stops.toList = definedStops (earlier ++ [s]) := by
  obtain ⟨stops, notices, hadd, hstops, hknown⟩ := b.addStop_eq s.stopId s.name
  obtain ⟨index, hindex⟩ := Option.isSome_iff_exists.mp hknown
  rw [findStop?_isSome_iff h, h] at hstops
  refine ⟨stops.modify index fun x => { x with priority := s.priority }, notices, ?_, ?_⟩
  · rw [hadd, setPriority, resolveStop, hindex]
    rfl
  · have hnodup : (stops.toList.map Stop.stopId).Nodup := by
      have hids := nodup_definedStops (earlier ++ [s])
      rw [definedStops_append_singleton, ← hstops, List.map_map] at hids
      refine (List.map_congr_left fun x _ => ?_) ▸ hids
      simp only [Function.comp_apply]
      split <;> rfl
    rw [Array.toList_modify, modify_findIdx? hnodup hindex, hstops,
      definedStops_append_singleton]

theorem addStops_eq {b : Builder} (earlier : List StopRecord)
    (h : b.stops.toList = definedStops earlier) (records : List StopRecord) :
    ∃ stops notices, TimetableDocument.addStops b records = (b.withStops stops notices, none)
      ∧ stops.toList = definedStops (earlier ++ records) := by
  induction records generalizing b earlier with
  | nil => exact ⟨b.stops, b.notices, rfl, by rw [List.append_nil, h]⟩
  | cons s rest ih =>
      obtain ⟨stops, notices, hstep, hstops⟩ := setPriority_addStop h s
      obtain ⟨stops', notices', hrest, hstops'⟩ := ih (b := b.withStops stops notices) _ hstops
      refine ⟨stops', notices', ?_, by rw [hstops', List.append_assoc, List.singleton_append]⟩
      simp only [TimetableDocument.addStops, hstep, hrest]
      rfl

section OtherStops

variable {b : Builder} {stops : Array Stop} {notices : Array Notice}
  (h : stops.toList.map Stop.stopId = b.stops.toList.map Stop.stopId)

include h

theorem findStop?_withStops : (b.withStops stops notices).findStop? = b.findStop? :=
  findStop?_congr h

theorem stopsOf_withStops (stopTimes : List StopTimeRecord) :
    (b.withStops stops notices).stopsOf stopTimes = b.stopsOf stopTimes := by
  induction stopTimes with
  | nil => rfl
  | cons s rest ih => simp only [stopsOf, findStop?_withStops h, ih]

theorem addAll_withStops (seen : List String) (a : Assembly) (rs : List TripRecord) :
    Assembly.addAll (b.withStops stops notices) seen a rs = Assembly.addAll b seen a rs := by
  have hfrequencies : (b.withStops stops notices).frequencies = b.frequencies := rfl
  induction rs generalizing seen a with
  | nil => rfl
  | cons r rest ih =>
      simp only [Assembly.addAll, Assembly.add, stopsOf_withStops h, hfrequencies, ih]

/-- Only the ids of stops bear on what is made of the other records. -/
theorem build_withStops : (b.withStops stops notices).build.2
    = b.build.2.map fun t => { t with stops := stops } := by
  have hsize : stops.size = b.stops.size := by simpa using congrArg List.length h
  have hall : Assembly.addAll (b.withStops stops notices) []
      { calendar := (b.withStops stops notices).calendar } (b.withStops stops notices).trips.toList
      = Assembly.addAll b [] { calendar := b.calendar } b.trips.toList :=
    addAll_withStops h ..
  have hcount : (b.withStops stops notices).stops.size = b.stops.size := hsize
  simp only [build, hall, hcount]
  cases Assembly.addAll b [] { calendar := b.calendar } b.trips.toList with
  | mk a fault => cases fault <;> rfl

theorem addTransfer_withStops (source target : String) (duration : Time) :
    (b.withStops stops notices).addTransfer source target duration
      = (b.addTransfer source target duration).map (·.withStops stops notices) := by
  simp only [addTransfer, resolveStop, findStop?_withStops h]
  split
  · rfl
  · cases b.findStop? source with
    | none => rfl
    | some s => cases b.findStop? target <;> rfl

end OtherStops

end Builder

namespace TimetableDocument

open Builder StopRecord

variable {b : Builder} {stops : Array Stop} (notices : Array Notice)

/-- What is given to a builder that knows the stops already. -/
def fillRest (d : TimetableDocument) (b : Builder) : Builder × Option Fault :=
  addTransfers (d.frequencies.foldl addFrequency (d.trips.foldl addTrip
    (d.services.foldl addService b))) d.transfers

/-- The timetable of a document whose stops are known already. -/
def settle (d : TimetableDocument) (b : Builder) : Except DocumentFault Timetable :=
  match d.fillRest b with
  | (_, some e) => .error (.fault e)
  | (b, none) => b.build.2.mapError .fault

/-- Steps that leave the stops alone do the same to whatever stops there are. -/
theorem foldl_withStops {α : Type} (stops : Array Stop) (f : Builder → α → Builder)
    (hf : ∀ b x, f (b.withStops stops notices) x = (f b x).withStops stops notices
      ∧ (f b x).stops = b.stops) (xs : List α) (b : Builder) :
    xs.foldl f (b.withStops stops notices) = (xs.foldl f b).withStops stops notices
      ∧ (xs.foldl f b).stops = b.stops := by
  induction xs generalizing b with
  | nil => exact ⟨rfl, rfl⟩
  | cons x xs ih =>
      rw [List.foldl_cons, List.foldl_cons, (hf b x).1, (ih _).1, (ih _).2, (hf b x).2]
      exact ⟨rfl, rfl⟩

theorem addService_withStops (stops : Array Stop) (b : Builder) (s : ServiceRecord) :
    addService (b.withStops stops notices) s = (addService b s).withStops stops notices
      ∧ (addService b s).stops = b.stops :=
  foldl_withStops notices stops (fun b date => b.removeServiceDate s.serviceId date)
    (fun _ _ => ⟨rfl, rfl⟩) s.removed (b.addServiceDates s.serviceId s.dates)

theorem addTransfers_withStops (h : stops.toList.map Stop.stopId = b.stops.toList.map Stop.stopId)
    (ts : List TransferRecord) : addTransfers (b.withStops stops notices) ts
      = ((addTransfers b ts).1.withStops stops notices, (addTransfers b ts).2) := by
  induction ts generalizing b with
  | nil => rfl
  | cons t rest ih =>
      simp only [addTransfers, addTransfer_withStops h]
      cases hadd : b.addTransfer t.source t.target t.duration with
      | error e => rfl
      | ok b' =>
          obtain ⟨_, _, -, -, -, rfl⟩ := addTransfer_eq_ok hadd
          exact ih h

theorem stops_addTransfers {ts : List TransferRecord} (b : Builder) :
    (addTransfers b ts).1.stops = b.stops := by
  induction ts generalizing b with
  | nil => rfl
  | cons t rest ih =>
      simp only [addTransfers]
      cases hadd : b.addTransfer t.source t.target t.duration with
      | error e => rfl
      | ok b' =>
          obtain ⟨_, _, -, -, -, rfl⟩ := addTransfer_eq_ok hadd
          exact ih _

theorem fillRest_withStops (d : TimetableDocument)
    (h : stops.toList.map Stop.stopId = b.stops.toList.map Stop.stopId) :
    d.fillRest (b.withStops stops notices)
        = ((d.fillRest b).1.withStops stops notices, (d.fillRest b).2)
      ∧ (d.fillRest b).1.stops = b.stops := by
  have hservices := foldl_withStops notices stops addService (addService_withStops notices stops)
    d.services b
  have htrips := foldl_withStops notices stops addTrip (fun _ _ => ⟨rfl, rfl⟩) d.trips
    (d.services.foldl addService b)
  have hfrequencies := foldl_withStops notices stops addFrequency (fun _ _ => ⟨rfl, rfl⟩)
    d.frequencies (d.trips.foldl addTrip (d.services.foldl addService b))
  have hstops := hfrequencies.2.trans (htrips.2.trans hservices.2)
  unfold fillRest
  rw [hservices.1, htrips.1, hfrequencies.1, stops_addTransfers, hstops]
  refine ⟨addTransfers_withStops notices ?_ d.transfers, rfl⟩
  rw [h, hstops]

theorem settle_withStops (d : TimetableDocument)
    (h : stops.toList.map Stop.stopId = b.stops.toList.map Stop.stopId) :
    d.settle (b.withStops stops notices) = (d.settle b).map fun t => { t with stops := stops } := by
  obtain ⟨hrest, hstops⟩ := d.fillRest_withStops notices h
  rw [← hstops] at h
  rw [settle, settle, hrest]
  cases hfill : d.fillRest b with
  | mk b' fault =>
      cases fault with
      | some e => rfl
      | none =>
          simp only [hfill] at h
          simp only [build_withStops h]
          cases b'.build.2 <;> rfl

theorem stops_settle {d : TimetableDocument} {t : Timetable} (ht : d.settle b = .ok t) :
    t.stops = b.stops := by
  have hsame : d.settle b = (d.settle b).map fun t => { t with stops := b.stops } :=
    d.settle_withStops b.notices rfl
  rw [ht] at hsame
  exact congrArg Timetable.stops (Except.ok.inj hsame)

/-- The document without records of stops that an earlier record is of. -/
def withFirstDefinitions (d : TimetableDocument) : TimetableDocument :=
  { d with stops := firstDefinitions d.stops }

theorem build_of_zone {d : TimetableDocument} {zone : Zone}
    (h : Zone.named? d.zoneName = some zone) :
    ∃ notices, d.build.2 = d.settle
      (({ zone := zone } : Builder).withStops (definedStops d.stops).toArray notices) := by
  obtain ⟨stops, notices, hadd, hstops⟩ := addStops_eq (b := { zone := zone }) [] rfl d.stops
  rw [List.nil_append] at hstops
  refine ⟨notices, ?_⟩
  rw [← hstops, Array.toArray_toList]
  have hfill : d.fill { zone := zone }
      = d.fillRest (({ zone := zone } : Builder).withStops stops notices) := by
    rw [fill, hadd]
    rfl
  simp only [build, h, hfill, settle]
  cases d.fillRest (({ zone := zone } : Builder).withStops stops notices) with
  | mk b fault =>
      cases fault with
      | some e => rfl
      | none =>
          simp only
          cases hbuilt : b.build with
          | mk notices' built => cases built <;> rfl

theorem build_of_unknownZone {d : TimetableDocument} (h : Zone.named? d.zoneName = none) :
    d.build.2 = .error (.unknownZone d.zoneName) := by
  simp only [build, h]

/-- First records alone make the same timetable, but for the stops. -/
theorem build_withFirstDefinitions (d : TimetableDocument) :
    d.withFirstDefinitions.build.2 = d.build.2.map fun t =>
      { t with stops := (definedStops (firstDefinitions d.stops)).toArray } := by
  cases hzone : Zone.named? d.zoneName with
  | none =>
      rw [build_of_unknownZone hzone, build_of_unknownZone (d := d.withFirstDefinitions) hzone]
      rfl
  | some zone =>
      obtain ⟨notices, hbuild⟩ := build_of_zone hzone
      obtain ⟨notices', hbuild'⟩ := build_of_zone (d := d.withFirstDefinitions) hzone
      have hids : (definedStops (firstDefinitions d.stops)).map Stop.stopId
          = (definedStops d.stops).map Stop.stopId := by
        rw [definedStops_firstDefinitions, definedStops, List.map_map, List.map_map]
        rfl
      rw [hbuild, hbuild']
      exact d.settle_withStops notices' (b := ({ zone := zone } : Builder).withStops _ notices) hids

theorem stops_build {d : TimetableDocument} {t : Timetable} (ht : d.build.2 = .ok t) :
    t.stops.toList = definedStops d.stops := by
  cases hzone : Zone.named? d.zoneName with
  | none =>
      rw [build_of_unknownZone hzone] at ht
      cases ht
  | some zone =>
      obtain ⟨notices, hbuild⟩ := build_of_zone hzone
      rw [hbuild] at ht
      exact congrArg Array.toList (stops_settle ht)

end TimetableDocument

/-- The timetable, whatever the priorities of its stops. -/
def Timetable.apartFromPriorities (t : Timetable) : Timetable :=
  { t with stops := t.stops.map fun s => { s with priority := .allowed } }

namespace TimetableDocument

open StopRecord

/-- Later records of a stop are ignored but for its priority, which is that of the last one. So
the timetable is that of the first records exactly if these have the last priorities. -/
theorem build_of_firstDefinitions (d : TimetableDocument) :
    d.build.2.map Timetable.apartFromPriorities
        = d.withFirstDefinitions.build.2.map Timetable.apartFromPriorities
      ∧ (∀ t, d.build.2 = .ok t → t.stops.toList = (firstDefinitions d.stops).map fun s =>
        { stopId := s.stopId, name := s.name, priority := latestPriority d.stops s.stopId })
      ∧ (d.build.2 = d.withFirstDefinitions.build.2 ↔ (∃ fault, d.build.2 = .error fault)
        ∨ ∀ s ∈ firstDefinitions d.stops, latestPriority d.stops s.stopId = s.priority) := by
  rw [d.build_withFirstDefinitions, definedStops_firstDefinitions]
  cases hbuild : d.build.2 with
  | error fault => exact ⟨rfl, fun _ ht => (nomatch ht), iff_of_true rfl (.inl ⟨fault, rfl⟩)⟩
  | ok t =>
      have hstops : t.stops = (definedStops d.stops).toArray :=
        Array.toList_inj.mp (stops_build hbuild)
      refine ⟨?_, ?_, ?_⟩
      · simp only [Except.map, Timetable.apartFromPriorities, hstops, definedStops,
          List.map_toArray, List.map_map]
        rfl
      · intro _ ht
        obtain rfl := Except.ok.inj ht
        exact congrArg Array.toList hstops
      · simp only [Except.map, Except.ok.injEq, reduceCtorEq, exists_false, false_or]
        rw [← definedStops_eq_iff]
        constructor
        · intro h
          exact Array.mk.inj (hstops.symm.trans (congrArg Timetable.stops h))
        · intro h
          rw [← h, ← hstops]

end TimetableDocument

namespace RepeatedStop

/-- A discouraged stop, another one, and the first one again under another name. -/
def document (again : TransferPriority) : TimetableDocument where
  zoneName := "UTC"
  stops := [⟨"A", some "Harbour", .discouraged⟩, ⟨"B", none, .allowed⟩, ⟨"A", some "Quay", again⟩]
  services := []
  trips := []
  frequencies := []
  transfers := [⟨"A", "B", 300⟩]

end RepeatedStop

theorem TimetableDocument.repeatedStop_ignored :
    (RepeatedStop.document .discouraged).build.2
        = (RepeatedStop.document .discouraged).withFirstDefinitions.build.2
      ∧ ∃ t, (RepeatedStop.document .preferred).build.2 = .ok t
        ∧ t.stops.toList = [⟨"A", some "Harbour", .preferred⟩, ⟨"B", none, .allowed⟩] := by
  have hbuilt : (RepeatedStop.document .preferred).build.2.toOption.any (fun _ => true) = true := by
    decide +kernel
  obtain ⟨t, ht, -⟩ := Fallible.any_toOption.mp hbuilt
  obtain ⟨-, hstops, -⟩ := (RepeatedStop.document .preferred).build_of_firstDefinitions
  exact ⟨(build_of_firstDefinitions _).2.2.mpr (.inr (by decide)), t, ht, hstops t ht⟩

/-- A later record that gives no priority takes away that of the first one. -/
theorem TimetableDocument.repeatedStop_reprioritized :
    (RepeatedStop.document .allowed).build.2
        ≠ (RepeatedStop.document .allowed).withFirstDefinitions.build.2
      ∧ ((RepeatedStop.document .allowed).build.2.toOption.map fun t =>
        t.stops.toList.map (·.priority)) = some [.allowed, .allowed]
      ∧ ((RepeatedStop.document .allowed).withFirstDefinitions.build.2.toOption.map fun t =>
        t.stops.toList.map (·.priority)) = some [.discouraged, .allowed] := by
  have hlast : ((RepeatedStop.document .allowed).build.2.toOption.map fun t =>
      t.stops.toList.map (·.priority)) = some [.allowed, .allowed] := by
    decide +kernel
  have hfirst : ((RepeatedStop.document .allowed).withFirstDefinitions.build.2.toOption.map fun t =>
      t.stops.toList.map (·.priority)) = some [.discouraged, .allowed] := by
    decide +kernel
  refine ⟨fun hsame => ?_, hlast, hfirst⟩
  rw [hsame, hfirst] at hlast
  exact absurd hlast (by decide)

end JourneyPlanner
