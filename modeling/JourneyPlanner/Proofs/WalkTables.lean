import JourneyPlanner.Proofs.Answering
import JourneyPlanner.Proofs.RecordOrder
import Mathlib.Order.Bounds.Basic

/-!
What becomes of the walks that were given. The table of a stop has one walk to each other stop
that any walk was given to, the shortest of them, ascending by stop; walks that reach a stop are
the same walks seen from their other end. All tables of one kind lie in one array, one after the
other.
-/

namespace JourneyPlanner

namespace Rows

variable {α : Type}

/-- Every item belongs to exactly one of the rows, and no row goes on beyond the last item. -/
structure Tiles (r : Rows α) (count : Nat) : Prop where
  rows : r.bounds.size = count
  within : ∀ {i start length : Nat}, r.bounds[i]? = some (start, length) →
    start + length ≤ r.items.size
  once : ∀ position < r.items.size, ∃! i : Nat, ∃ start length : Nat,
    r.bounds[i]? = some (start, length) ∧ start ≤ position ∧ position < start + length

theorem within_boundsFrom {start : Nat} {rows : List (List α)} {i s length : Nat}
    (h : (boundsFrom start rows)[i]? = some (s, length)) :
    start ≤ s ∧ s + length ≤ start + rows.flatten.length := by
  rw [getElem?_boundsFrom, Option.map_eq_some_iff] at h
  obtain ⟨row, hrow, hbounds⟩ := h
  obtain ⟨rfl, rfl⟩ := Prod.mk.inj hbounds
  have hsplit := congrArg (fun rows => rows.flatten.length) (List.take_append_drop (i + 1) rows)
  simp only [List.take_add_one, hrow, List.flatten_append, List.length_append, Option.toList_some,
    List.flatten_cons, List.flatten_nil, List.append_nil] at hsplit
  omega

theorem existsUnique_boundsFrom {start position : Nat} {rows : List (List α)}
    (hstart : start ≤ position) (hend : position < start + rows.flatten.length) :
    ∃! i : Nat, ∃ s length : Nat, (boundsFrom start rows)[i]? = some (s, length)
      ∧ s ≤ position ∧ position < s + length := by
  induction rows generalizing start with
  | nil => simp at hend; omega
  | cons row rows ih =>
      rw [List.flatten_cons, List.length_append] at hend
      by_cases hrow : position < start + row.length
      · refine ⟨0, ⟨start, row.length, rfl, hstart, hrow⟩, ?_⟩
        rintro (_ | i) ⟨s, length, hbounds, hs, -⟩
        · rfl
        · have hwithin := (within_boundsFrom (i := i) hbounds).1
          omega
      · obtain ⟨i, hi, honly⟩ := ih (Nat.not_lt.mp hrow) (by omega)
        refine ⟨i + 1, hi, ?_⟩
        rintro (_ | j) ⟨s, length, hbounds, hs, hlength⟩
        · obtain ⟨rfl, rfl⟩ := Prod.mk.inj (Option.some.inj hbounds)
          omega
        · exact congrArg (· + 1) (honly j ⟨s, length, hbounds, hs, hlength⟩)

theorem tiles_ofLists (rows : List (List α)) : (ofLists rows).Tiles rows.length where
  rows := size_bounds_ofLists rows
  within h := by
    rw [ofLists, List.getElem?_toArray] at h
    simpa [ofLists] using (within_boundsFrom h).2
  once position h := by
    simp only [ofLists, List.getElem?_toArray]
    exact existsUnique_boundsFrom (Nat.zero_le _) (by simpa [ofLists] using h)

end Rows

namespace Walks

theorem ascending_sort {ts : List Transfer} (h : (ts.map (·.target)).Nodup) :
    (Ordered.sort before ts).Pairwise fun w w' => w.target < w'.target := by
  have hapart : (Ordered.sort before ts).Pairwise fun w w' => w.target ≠ w'.target :=
    List.pairwise_map.mp (((Ordered.sort_perm before ts).map _).nodup_iff.mpr h)
  refine ((Ordered.sort_ascends before_iff ts).and hapart).imp ?_
  rintro w w' ⟨hle, hne⟩
  exact Nat.lt_of_le_of_ne (Prod.Lex.monotone_fst _ _ hle) hne

variable {table : List ((Nat × Nat) × Time)}

/-- Walks that share one end differ in the other one. -/
theorem nodup_other_ends (h : (table.map Prod.fst).Nodup) {here there : Nat × Nat → Nat}
    (hends : ∀ k k', here k = here k' → there k = there k' → k = k') (stop : Nat) :
    ((table.filter fun e => here e.1 == stop).map fun e => there e.1).Nodup := by
  have hkeys : ((table.filter fun e => here e.1 == stop).map Prod.fst).Nodup :=
    h.sublist (List.filter_sublist.map _)
  have hothers : (((table.filter fun e => here e.1 == stop).map Prod.fst).map there).Nodup := by
    refine hkeys.map_on ?_
    simp only [List.mem_map, List.mem_filter, beq_iff_eq]
    rintro k ⟨e, ⟨-, he⟩, rfl⟩ k' ⟨e', ⟨-, he'⟩, rfl⟩ hsame
    exact hends _ _ (he.trans he'.symm) hsame
  rwa [List.map_map] at hothers

/-- Sorted rows ascend if no two walks of a row go to one stop. -/
theorem ascending_rows {rowAt : Nat → List Transfer}
    (h : ∀ stop, ((rowAt stop).map (·.target)).Nodup) (numStops stop : Nat) :
    ((Rows.ofLists ((List.range numStops).map fun s => Ordered.sort before (rowAt s))).row
      stop).Pairwise fun w w' => w.target < w'.target := by
  rw [Rows.row_ofLists, List.getElem?_map]
  by_cases hlt : stop < numStops
  · simp only [List.getElem?_range hlt, Option.map_some, Option.getD_some]
    exact ascending_sort (h stop)
  · simp [hlt]

theorem ascending_outgoing (h : (table.map Prod.fst).Nodup) (numStops stop : Nat) :
    ((outgoing table numStops).row stop).Pairwise fun w w' => w.target < w'.target := by
  refine ascending_rows (fun s => ?_) numStops stop
  rw [List.map_map]
  exact nodup_other_ends h (fun _ _ => Prod.ext) s

theorem ascending_incoming (h : (table.map Prod.fst).Nodup) (numStops stop : Nat) :
    ((incoming table numStops).row stop).Pairwise fun w w' => w.target < w'.target := by
  refine ascending_rows (fun s => ?_) numStops stop
  rw [List.map_map]
  exact nodup_other_ends h (fun _ _ htarget hsource => Prod.ext hsource htarget) s

end Walks

namespace Timetable

open Builder (Entry)

/-- Durations that were given for walks from a stop to another one. -/
def givenDurations (t : Timetable) (es : List Entry) (source target : Nat) : Set Time :=
  {d | ∃ sourceId targetId, Entry.transfer sourceId targetId d ∈ es
    ∧ t.findStop? sourceId = some source ∧ t.findStop? targetId = some target}

end Timetable

namespace Builder

variable {b : Builder} {zone : Zone} {es : List Entry} {t : Timetable}

theorem findStop?_build (ht : b.build.2 = .ok t) : t.findStop? = b.findStop? := by
  obtain ⟨a, -, hstops, -⟩ := build_eq_ok ht
  funext stopId
  rw [Timetable.findStop?, Builder.findStop?, hstops]

theorem Collects.mem_walks (hb : b.Collects es) {w : Walk} :
    w ∈ b.walks.toList ↔ ∃ sourceId targetId, Entry.transfer sourceId targetId w.duration ∈ es
      ∧ b.findStop? sourceId = some w.source ∧ b.findStop? targetId = some w.target := by
  have hmem : w ∈ b.walks.toList ↔ some w ∈ (es.filterMap Entry.transfer?).map b.walk? := by
    rw [← hb.walks, List.mem_map_of_injective (Option.some_injective _)]
  rw [hmem]
  simp only [List.mem_map, List.mem_filterMap]
  constructor
  · rintro ⟨⟨sourceId, targetId, duration⟩, ⟨e, he, htransfer⟩, hwalk⟩
    simp only [walk?, Option.bind_eq_bind, Option.bind_eq_some_iff, Option.pure_def,
      Option.some_inj] at hwalk
    obtain ⟨s, hs, t, ht, rfl⟩ := hwalk
    cases e <;>
      simp only [Entry.transfer?, Option.some_inj, reduceCtorEq, Prod.mk.injEq] at htransfer
    obtain ⟨rfl, rfl, rfl⟩ := htransfer
    exact ⟨_, _, he, hs, ht⟩
  · rintro ⟨sourceId, targetId, he, hs, ht⟩
    refine ⟨(sourceId, targetId, w.duration), ⟨_, he, rfl⟩, ?_⟩
    simp only [walk?, hs, ht, Option.bind_eq_bind, Option.bind_some, Option.pure_def]

theorem mem_transfersFrom (hb : b.Collects es) (ht : b.build.2 = .ok t) {source target : Nat}
    {d : Time} : ⟨target, d⟩ ∈ t.transfersFrom source ↔
      source ≠ target ∧ IsLeast (t.givenDurations es source target) d := by
  obtain ⟨a, -, -, -, -, htransfers, -⟩ := build_eq_ok ht
  have hgiven : ∀ duration, (⟨source, target, duration⟩ : Walk) ∈ b.walks.toList
      ↔ duration ∈ t.givenDurations es source target := by
    intro duration
    rw [hb.mem_walks, Timetable.givenDurations, findStop?_build ht]
    rfl
  rw [Timetable.transfersFrom, htransfers, Walks.mem_outgoing, Walks.mem_shortest, hgiven]
  constructor
  · rintro ⟨-, hne, hmem, hleast⟩
    refine ⟨hne, hmem, fun duration hduration => ?_⟩
    exact hleast _ ((hgiven duration).mpr hduration) rfl rfl
  · rintro ⟨hne, hmem, hleast⟩
    obtain ⟨sourceId, targetId, he, hs, -⟩ := hb.mem_walks.mp ((hgiven d).mpr hmem)
    refine ⟨findStop?_lt hs, hne, hmem, ?_⟩
    rintro ⟨_, _, duration⟩ hw rfl rfl
    exact hleast ((hgiven duration).mp hw)

/-- Of the walks given between two stops a timetable has the shortest, none from a stop to itself,
and it has the same walks from both ends. -/
theorem transfers_of_entries (hb : ofEntries zone es = .ok b) (ht : b.build.2 = .ok t) :
    (∀ source target d, ⟨target, d⟩ ∈ t.transfersFrom source ↔
        source ≠ target ∧ IsLeast (t.givenDurations es source target) d)
      ∧ (∀ source target d, ⟨source, d⟩ ∈ t.transfersTo target ↔
        ⟨target, d⟩ ∈ t.transfersFrom source)
      ∧ (∀ stop, (t.transfersFrom stop).Pairwise fun w w' => w.target < w'.target)
      ∧ (∀ stop, (t.transfersTo stop).Pairwise fun w w' => w.target < w'.target)
      ∧ t.transfers.Tiles t.numStops ∧ t.incoming.Tiles t.numStops := by
  obtain ⟨a, -, hstops, -, -, htransfers, hincoming, -⟩ := build_eq_ok ht
  have hkeys := Walks.nodup_keys_shortest b.walks.toList
  have hcount : t.numStops = b.stops.size := congrArg Array.size hstops
  have htiles : ∀ rows : Nat → List Transfer,
      (Rows.ofLists ((List.range b.stops.size).map rows)).Tiles b.stops.size := fun rows => by
    simpa using Rows.tiles_ofLists ((List.range b.stops.size).map rows)
  refine ⟨fun _ _ _ => mem_transfersFrom (collects_ofEntries hb) ht,
    fun _ _ _ => (sound_build (assembled_ofEntries hb) ht).mirrored, fun stop => ?_, fun stop => ?_,
    ?_, ?_⟩
  · rw [Timetable.transfersFrom, htransfers]
    exact Walks.ascending_outgoing hkeys _ stop
  · rw [Timetable.transfersTo, hincoming]
    exact Walks.ascending_incoming hkeys _ stop
  · rw [htransfers, hcount]
    exact htiles _
  · rw [hincoming, hcount]
    exact htiles _

end Builder

namespace MixedWalks

open Builder (Entry)

/-- Walks in both directions, two of them between the same stops and one from a stop to itself;
the last stop has none. -/
def entries : List Entry :=
  [.stop "A" none, .stop "B" none, .transfer "A" "B" 300, .stop "C" none, .transfer "A" "B" 120,
    .transfer "C" "B" 60, .transfer "A" "A" 10, .transfer "B" "A" 400, .stop "D" none]

end MixedWalks

theorem Builder.mixedWalks_listed : ∃ b t, ofEntries .utc MixedWalks.entries = .ok b
    ∧ b.build.2 = .ok t ∧ t.numStops = 4 ∧ t.transfersFrom 0 = [⟨1, 120⟩]
    ∧ t.transfersTo 1 = [⟨0, 120⟩, ⟨2, 60⟩] ∧ t.transfersFrom 3 = []
    ∧ IsLeast (t.givenDurations MixedWalks.entries 0 1) 120
    ∧ t.transfers.Tiles 4 ∧ t.incoming.Tiles 4 := by
  have hlisted : (ofEntries .utc MixedWalks.entries).toOption.any (fun b =>
      b.build.2.toOption.any fun t => decide (t.numStops = 4 ∧ t.transfersFrom 0 = [⟨1, 120⟩]
        ∧ t.transfersTo 1 = [⟨0, 120⟩, ⟨2, 60⟩] ∧ t.transfersFrom 3 = [])) = true := by
    decide +kernel
  obtain ⟨b, hb, hbuilt⟩ := Fallible.any_toOption.mp hlisted
  obtain ⟨t, ht, hwalks⟩ := Fallible.any_toOption.mp hbuilt
  obtain ⟨hcount, hfrom, hto, hnone⟩ := of_decide_eq_true hwalks
  obtain ⟨hshortest, -, -, -, htiles, htiles'⟩ := transfers_of_entries hb ht
  rw [hcount] at htiles htiles'
  refine ⟨b, t, hb, ht, hcount, hfrom, hto, hnone, ?_, htiles, htiles'⟩
  exact ((hshortest 0 1 120).mp (hfrom ▸ List.mem_singleton_self _)).2

end JourneyPlanner
