import JourneyPlanner.Proofs.Built

/-!
Builders as the records they were given. Stops, priorities and services take effect at once,
so their order matters; trips, frequencies and walks are only collected. What a builder holds
in the end does not depend on how the two kinds of records were mixed.
-/

namespace JourneyPlanner
namespace Builder

/-- What a builder can be given. -/
inductive Entry where
  | stop (stopId : String) (name : Option String)
  | priority (stopId : String) (priority : TransferPriority)
  | serviceDates (serviceId : String) (dates : List Date)
  | removedDate (serviceId : String) (date : Date)
  | trip (r : TripRecord)
  | frequency (f : FrequencyRecord)
  | transfer (source target : String) (duration : Time)

namespace Entry

/-- Stops, priorities and services, which take effect in the order in which they come. -/
def isGround : Entry → Bool
  | .stop _ _ | .priority _ _ | .serviceDates _ _ | .removedDate _ _ => true
  | .trip _ | .frequency _ | .transfer _ _ _ => false

def trip? : Entry → Option TripRecord
  | .trip r => some r
  | _ => none

def frequency? : Entry → Option FrequencyRecord
  | .frequency f => some f
  | _ => none

def transfer? : Entry → Option (String × String × Time)
  | .transfer source target duration => some (source, target, duration)
  | _ => none

end Entry

def give (b : Builder) : Entry → Except Fault Builder
  | .stop stopId name => .ok (b.addStop stopId name).2
  | .priority stopId priority => b.setPriority stopId priority
  | .serviceDates serviceId dates => .ok (b.addServiceDates serviceId dates)
  | .removedDate serviceId date => .ok (b.removeServiceDate serviceId date)
  | .trip r => .ok (b.addTrip r)
  | .frequency f => .ok (b.addFrequency f)
  | .transfer source target duration => b.addTransfer source target duration

/-- The builder that was given all the entries, none of which it refused. -/
def ofEntries (zone : Zone) (es : List Entry) : Except Fault Builder :=
  es.foldlM give { zone := zone }

/-- The builder after all the entries; one that is refused leaves it as it was. -/
def given (zone : Zone) (es : List Entry) : Builder :=
  es.foldl (fun b e => (b.give e).toOption.getD b) { zone := zone }

/-- Frequencies of a trip id, in the order in which they came. -/
def entriesFor (b : Builder) (tripId : String) : List FrequencyRecord :=
  (Association.find? tripId b.frequencies).getD []

/-- A transfer between stops that are known. -/
def walk? (b : Builder) (w : String × String × Time) : Option Walk := do
  let source ← b.findStop? w.1
  let target ← b.findStop? w.2.1
  return ⟨source, target, w.2.2⟩

variable {b b' : Builder} {zone : Zone} {es es' : List Entry} {e : Entry}

theorem resolveStop_eq_ok {stopId : String} {index : Nat} :
    b.resolveStop stopId = .ok index ↔ b.findStop? stopId = some index := by
  unfold resolveStop
  cases b.findStop? stopId <;> simp

theorem setPriority_eq_ok {stopId : String} {priority : TransferPriority}
    (h : b.setPriority stopId priority = .ok b') :
    ∃ index, b.findStop? stopId = some index
      ∧ b' = { b with stops := b.stops.modify index fun s => { s with priority := priority } } := by
  unfold setPriority at h
  cases hr : b.resolveStop stopId with
  | error e => simp [hr] at h
  | ok index =>
      simp only [hr, Except.ok.injEq] at h
      exact ⟨index, resolveStop_eq_ok.mp hr, h.symm⟩

/-- Stops are found by their ids. -/
theorem findStop?_congr
    (h : b'.stops.toList.map Stop.stopId = b.stops.toList.map Stop.stopId) :
    b'.findStop? = b.findStop? := by
  have hfind : ∀ (stops : List Stop) (stopId : String),
      stops.findIdx? (fun s => s.stopId == stopId)
        = (stops.map Stop.stopId).findIdx? (· == stopId) := fun stops stopId => by
    rw [List.findIdx?_map]
    rfl
  funext stopId
  rw [findStop?, findStop?, hfind, hfind, h]

theorem findStop?_setPriority {stopId : String} {priority : TransferPriority}
    (h : b.setPriority stopId priority = .ok b') : b'.findStop? = b.findStop? := by
  obtain ⟨index, -, rfl⟩ := setPriority_eq_ok h
  refine findStop?_congr (List.ext_getElem? fun i => ?_)
  simp only [Array.toList_modify, List.getElem?_map, List.getElem?_modify]
  cases b.stops.toList[i]? with
  | none => rfl
  | some s =>
      by_cases hi : index = i
      · simp [hi]
      · simp [hi]

section Ground

/-- Builders that know the same stops and services. -/
structure SharesGround (b b' : Builder) : Prop where
  zone : b'.zone = b.zone
  stops : b'.stops = b.stops
  calendar : b'.calendar = b.calendar

theorem SharesGround.findStop? (h : b.SharesGround b') : b'.findStop? = b.findStop? := by
  funext stopId
  rw [Builder.findStop?, Builder.findStop?, h.stops]

theorem SharesGround.symm (h : b.SharesGround b') : b'.SharesGround b :=
  ⟨h.zone.symm, h.stops.symm, h.calendar.symm⟩

theorem SharesGround.trans {b'' : Builder} (h : b.SharesGround b') (h' : b'.SharesGround b'') :
    b.SharesGround b'' :=
  ⟨h'.zone.trans h.zone, h'.stops.trans h.stops, h'.calendar.trans h.calendar⟩

theorem sharesGround_give (he : e.isGround = false) (h : b.give e = .ok b') : b.SharesGround b' := by
  cases e with
  | stop stopId name => cases he
  | priority stopId priority => cases he
  | serviceDates serviceId dates => cases he
  | removedDate serviceId date => cases he
  | trip r => exact Except.ok.inj h ▸ ⟨rfl, rfl, rfl⟩
  | frequency f => exact Except.ok.inj h ▸ ⟨rfl, rfl, rfl⟩
  | transfer source target duration =>
      obtain ⟨s, t, -, -, -, rfl⟩ := addTransfer_eq_ok h
      exact ⟨rfl, rfl, rfl⟩

/-- What makes a difference to stops and services makes the same to whoever shares them. -/
theorem SharesGround.give {g : Builder} (hg : b.SharesGround g) (he : e.isGround = true)
    (h : b.give e = .ok b') : ∃ g', g.give e = .ok g' ∧ b'.SharesGround g' := by
  obtain ⟨hzone, hstops, hcalendar⟩ := hg
  have hfind : ∀ stopId, g.findStop? stopId = b.findStop? stopId := fun stopId => by
    rw [Builder.findStop?, Builder.findStop?, hstops]
  cases e with
  | stop stopId name =>
      obtain rfl := Except.ok.inj h
      refine ⟨_, rfl, ?_⟩
      unfold addStop
      rw [hfind]
      cases b.findStop? stopId with
      | some index => exact ⟨hzone, hstops, hcalendar⟩
      | none =>
          refine ⟨hzone, ?_, hcalendar⟩
          simp only [hstops]
  | priority stopId priority =>
      obtain ⟨index, hindex, rfl⟩ := setPriority_eq_ok h
      refine ⟨{ g with stops := g.stops.modify index fun s => { s with priority := priority } }, ?_,
        hzone, ?_, hcalendar⟩
      · simp only [Builder.give, setPriority, resolveStop, hfind, hindex]
      · simp only [hstops]
  | serviceDates serviceId dates =>
      obtain rfl := Except.ok.inj h
      refine ⟨_, rfl, hzone, hstops, ?_⟩
      simp only [addServiceDates, hcalendar]
  | removedDate serviceId date =>
      obtain rfl := Except.ok.inj h
      refine ⟨_, rfl, hzone, hstops, ?_⟩
      simp only [removeServiceDate, hcalendar]
  | trip r => cases he
  | frequency f => cases he
  | transfer source target duration => cases he

/-- Only stops, priorities and services bear on the stops and services of a builder. -/
theorem sharesGround_filter {g : Builder} (hg : b.SharesGround g) (h : es.foldlM give b = .ok b') :
    ∃ g', (es.filter Entry.isGround).foldlM give g = .ok g' ∧ b'.SharesGround g' := by
  induction es generalizing b g with
  | nil =>
      obtain rfl := Fallible.pure_eq_ok.mp h
      exact ⟨g, rfl, hg⟩
  | cons e es ih =>
      obtain ⟨b₁, hstep, hrest⟩ := Fallible.foldlM_cons_eq_ok.mp h
      cases he : e.isGround with
      | true =>
          obtain ⟨g₁, hstep', hg₁⟩ := hg.give he hstep
          obtain ⟨g', hrest', hg'⟩ := ih hg₁ hrest
          rw [List.filter_cons_of_pos he]
          exact ⟨g', Fallible.foldlM_cons_eq_ok.mpr ⟨g₁, hstep', hrest'⟩, hg'⟩
      | false =>
          rw [List.filter_cons_of_neg (by simp [he])]
          exact ih ((sharesGround_give he hstep).symm.trans hg) hrest

theorem sharesGround_ofEntries (hb : ofEntries zone es = .ok b) (hb' : ofEntries zone es' = .ok b')
    (h : es.filter Entry.isGround = es'.filter Entry.isGround) : b.SharesGround b' := by
  obtain ⟨g, hg, hshares⟩ := sharesGround_filter ⟨rfl, rfl, rfl⟩ hb
  obtain ⟨g', hg', hshares'⟩ := sharesGround_filter ⟨rfl, rfl, rfl⟩ hb'
  rw [h, hg', Except.ok.injEq] at hg
  exact hshares.trans (hg ▸ hshares'.symm)

end Ground

section Collected

/-- A stop keeps its index, whatever else comes. -/
theorem findStop?_give (h : b.give e = .ok b') {stopId : String} {index : Nat}
    (hfind : b.findStop? stopId = some index) : b'.findStop? stopId = some index := by
  cases e with
  | stop newId name =>
      obtain rfl := Except.ok.inj h
      unfold addStop
      cases hnew : b.findStop? newId with
      | some _ => exact hfind
      | none =>
          simp only [findStop?, Array.toList_push] at hfind ⊢
          rw [List.findIdx?_append, hfind, Option.some_or]
  | priority otherId priority => rwa [findStop?_setPriority h]
  | serviceDates serviceId dates => exact Except.ok.inj h ▸ hfind
  | removedDate serviceId date => exact Except.ok.inj h ▸ hfind
  | trip r => exact Except.ok.inj h ▸ hfind
  | frequency f => exact Except.ok.inj h ▸ hfind
  | transfer source target duration =>
      rwa [(sharesGround_give rfl h).findStop?]

theorem walk?_give (h : b.give e = .ok b') {w : String × String × Time} {walk : Walk}
    (hwalk : b.walk? w = some walk) : b'.walk? w = some walk := by
  simp only [walk?, Option.bind_eq_bind, Option.bind_eq_some_iff, Option.pure_def] at hwalk ⊢
  obtain ⟨s, hs, t, ht, hwalk⟩ := hwalk
  exact ⟨s, findStop?_give h hs, t, findStop?_give h ht, hwalk⟩

/-- What has been collected from the entries given so far. -/
structure Collects (b : Builder) (es : List Entry) : Prop where
  trips : b.trips.toList = es.filterMap Entry.trip?
  frequencies : ∀ tripId, Association.find? tripId b.frequencies
    = (match (es.filterMap Entry.frequency?).filter (·.tripId == tripId) with
      | [] => none
      | fs => some fs)
  walks : b.walks.toList.map some = (es.filterMap Entry.transfer?).map b.walk?

theorem Collects.entriesFor (h : b.Collects es) (tripId : String) :
    b.entriesFor tripId = (es.filterMap Entry.frequency?).filter (·.tripId == tripId) := by
  rw [Builder.entriesFor, h.frequencies]
  split
  case h_1 hnone => exact hnone.symm
  case h_2 => rfl

/-- Transfers whose stops were known are still the same walks. -/
theorem map_walk?_give (h : b.give e = .ok b') {ws : List (String × String × Time)}
    {walks : List Walk} (hwalks : walks.map some = ws.map b.walk?) :
    walks.map some = ws.map b'.walk? := by
  rw [hwalks]
  refine List.map_congr_left fun w hw => ?_
  have hmem : b.walk? w ∈ walks.map some := hwalks ▸ List.mem_map_of_mem hw
  obtain ⟨walk, -, hwalk⟩ := List.mem_map.mp hmem
  rw [← hwalk, walk?_give h hwalk.symm]

/-- Each entry is collected in at most one place. -/
theorem collected_give (h : b.give e = .ok b') :
    b'.trips.toList = b.trips.toList ++ e.trip?.toList
      ∧ b'.frequencies = e.frequency?.elim b.frequencies (fun f => (b.addFrequency f).frequencies)
      ∧ b'.walks.toList.map some = b.walks.toList.map some ++ (e.transfer?.map b'.walk?).toList := by
  have hground : b'.trips = b.trips → b'.frequencies = b.frequencies → b'.walks = b.walks →
      b'.trips.toList = b.trips.toList ++ [] ∧ b'.frequencies = b.frequencies
        ∧ b'.walks.toList.map some = b.walks.toList.map some ++ [] := by
    rintro htrips hfrequencies hwalks
    simp only [htrips, hfrequencies, hwalks, List.append_nil, and_self]
  cases e with
  | stop stopId name =>
      obtain rfl := Except.ok.inj h
      refine hground ?_ ?_ ?_ <;> unfold addStop <;> cases b.findStop? stopId <;> rfl
  | priority stopId priority =>
      obtain ⟨i, -, rfl⟩ := setPriority_eq_ok h
      exact hground rfl rfl rfl
  | serviceDates serviceId dates =>
      obtain rfl := Except.ok.inj h
      exact hground rfl rfl rfl
  | removedDate serviceId date =>
      obtain rfl := Except.ok.inj h
      exact hground rfl rfl rfl
  | trip r =>
      obtain rfl := Except.ok.inj h
      exact ⟨Array.toList_push, rfl, (List.append_nil _).symm⟩
  | frequency f =>
      obtain rfl := Except.ok.inj h
      exact ⟨(List.append_nil _).symm, rfl, (List.append_nil _).symm⟩
  | transfer source target duration =>
      obtain ⟨s, t, hs, ht, -, rfl⟩ := addTransfer_eq_ok h
      rw [resolveStop_eq_ok] at hs ht
      refine ⟨(List.append_nil _).symm, rfl, ?_⟩
      have hwalk : { b with walks := b.walks.push ⟨s, t, duration⟩ }.walk? (source, target, duration)
          = some ⟨s, t, duration⟩ := by
        change b.walk? (source, target, duration) = _
        simp only [walk?, hs, ht, Option.bind_eq_bind, Option.bind_some, Option.pure_def]
      simp only [Entry.transfer?, Option.map_some, hwalk, Array.toList_push, List.map_append,
        List.map_cons, List.map_nil, Option.toList_some]

theorem Collects.give (hb : b.Collects es) (h : b.give e = .ok b') : b'.Collects (es ++ [e]) := by
  obtain ⟨htrips, hfrequencies, hwalks⟩ := collected_give h
  have hlast : ∀ {α : Type} (f : Entry → Option α),
      (es ++ [e]).filterMap f = es.filterMap f ++ (f e).toList := fun f => by
    rw [List.filterMap_append]
    cases he : f e <;> simp [he]
  refine ⟨?_, fun tripId => ?_, ?_⟩
  · rw [hlast, htrips, hb.trips]
  · rw [hlast, hfrequencies, List.filter_append]
    cases e.frequency? with
    | none => simpa using hb.frequencies tripId
    | some f =>
        rw [Option.elim_some, addFrequency, Association.find?_alter]
        by_cases hid : f.tripId = tripId
        · subst hid
          rw [if_pos rfl]
          change some (b.entriesFor f.tripId ++ [f]) = _
          rw [hb.entriesFor, Option.toList_some, List.filter_singleton, beq_self_eq_true, cond_true]
          cases (es.filterMap Entry.frequency?).filter (·.tripId == f.tripId) <;> rfl
        · simpa [hid] using hb.frequencies tripId
  · rw [hlast, hwalks, map_walk?_give h hb.walks, List.map_append]
    cases e.transfer? <;> rfl

theorem collects_ofEntries (h : ofEntries zone es = .ok b) : b.Collects es := by
  have hgiven : ∀ (es' : List Entry) (given : List Entry) (p : Builder), p.Collects given →
      es'.foldlM Builder.give p = .ok b → b.Collects (given ++ es') := by
    intro es'
    induction es' with
    | nil =>
        intro given p hp h
        rw [List.append_nil]
        exact Fallible.pure_eq_ok.mp h ▸ hp
    | cons e es' ih =>
        intro given p hp h
        obtain ⟨p', hstep, hrest⟩ := Fallible.foldlM_cons_eq_ok.mp h
        rw [List.append_cons]
        exact ih _ p' (hp.give hstep) hrest
  exact hgiven es [] { zone := zone } ⟨rfl, fun _ => rfl, rfl⟩ h

end Collected

/-- Trips and frequencies are never refused. -/
theorem exists_ofEntries (zone : Zone) (es : List Entry) :
    ∃ es', ofEntries zone es' = .ok (given zone es)
      ∧ es'.filterMap Entry.trip? = es.filterMap Entry.trip?
      ∧ es'.filterMap Entry.frequency? = es.filterMap Entry.frequency? := by
  have hgiven : ∀ b : Builder, ∃ es' : List Entry, es'.foldlM give b
        = .ok (es.foldl (fun b e => (b.give e).toOption.getD b) b)
      ∧ es'.filterMap Entry.trip? = es.filterMap Entry.trip?
      ∧ es'.filterMap Entry.frequency? = es.filterMap Entry.frequency? := by
    induction es with
    | nil => exact fun b => ⟨[], rfl, rfl, rfl⟩
    | cons e es ih =>
        intro b
        obtain ⟨es', hfold, htrips, hfrequencies⟩ := ih ((b.give e).toOption.getD b)
        cases hgive : b.give e with
        | ok b' =>
            rw [hgive] at hfold
            refine ⟨e :: es', ?_, ?_, ?_⟩
            · rw [Fallible.foldlM_cons_eq_ok, List.foldl_cons, hgive]
              exact ⟨b', rfl, hfold⟩
            · simp only [List.filterMap_cons, htrips]
            · simp only [List.filterMap_cons, hfrequencies]
        | error fault =>
            rw [hgive] at hfold
            have hrefused : e.trip? = none ∧ e.frequency? = none := by
              cases e with
              | trip r => cases hgive
              | frequency f => cases hgive
              | _ => exact ⟨rfl, rfl⟩
            refine ⟨es', ?_, ?_, ?_⟩
            · rw [List.foldl_cons, hgive]
              exact hfold
            · rw [List.filterMap_cons_none hrefused.1, htrips]
            · rw [List.filterMap_cons_none hrefused.2, hfrequencies]
  exact hgiven { zone := zone }

theorem assembled_give (hb : b.Assembled) (h : b.give e = .ok b') : b'.Assembled := by
  cases e with
  | stop stopId name => exact Except.ok.inj h ▸ hb.addStop stopId name
  | priority stopId priority => exact hb.setPriority h
  | serviceDates serviceId dates => exact Except.ok.inj h ▸ hb.addServiceDates serviceId dates
  | removedDate serviceId date => exact Except.ok.inj h ▸ hb.removeServiceDate serviceId date
  | trip r => exact Except.ok.inj h ▸ hb.addTrip r
  | frequency f => exact Except.ok.inj h ▸ hb.addFrequency f
  | transfer source target duration => exact hb.addTransfer h

theorem assembled_ofEntries (h : ofEntries zone es = .ok b) : b.Assembled :=
  Fallible.foldlM_keeps (fun _ _ _ _ hp hstep => assembled_give hp hstep) (.empty zone) h

end Builder
end JourneyPlanner
