import JourneyPlanner.Proofs.Telling
import Mathlib.Data.Multiset.MapFold

/-!
What can be read off the events of a search: which arrivals were accepted and over which
stops others go on from them, which journeys are left once all that were dropped are taken
out again, and that whatever rejected or dropped something was no worse.
-/

namespace JourneyPlanner

/-- Earlier is no worse going forward, later in reverse. -/
def Direction.NoWorse (d : Direction) (a b : Time) : Prop :=
  match d with
  | .forward => a ≤ b
  | .reverse => b ≤ a

theorem Heading.betterOrEqual_iff {h : Heading} {a b : Time} :
    h.betterOrEqual a b = true ↔ h.direction.NoWorse a b := by
  unfold betterOrEqual Direction.NoWorse
  cases h.direction <;> simp

/-- An arrival at the same stop that is at least as good on all that arrivals are compared on. -/
structure StopArrival.IsAsGoodAs (d : Direction) (p : DominancePolicy) (a b : StopArrival) :
    Prop where
  stop : a.stop = b.stop
  round : a.round ≤ b.round
  time : d.NoWorse a.time b.time
  cost : p.cost = true → a.cost ≤ b.cost

theorem StopArrival.isAsGoodAs_of_dominates {h : Heading} {p : DominancePolicy}
    {a b : StopArrival} (hstop : a.stop = b.stop) (hround : a.round ≤ b.round)
    (hab : dominates h p.cost a b = true) : a.IsAsGoodAs h.direction p b := by
  simp only [dominates, Bool.and_eq_true, Bool.or_eq_true, Bool.not_eq_true', decide_eq_true_eq,
    Heading.betterOrEqual_iff, ← Bool.not_eq_true, ← Decidable.imp_iff_not_or] at hab
  exact ⟨hstop, hround, hab.1, hab.2⟩

/-- A journey that is at least as good on all that journeys are compared on; to leave the
origin later is better, or to come to the destination earlier in reverse. -/
structure DestinationArrival.IsAsGoodAs (d : Direction) (p : DominancePolicy)
    (a b : DestinationArrival) : Prop where
  originTime : d.NoWorse b.merits.originTime a.merits.originTime
  time : d.NoWorse a.merits.time b.merits.time
  rounds : p.transfers = true → a.merits.rounds ≤ b.merits.rounds
  cost : p.cost = true → a.merits.cost ≤ b.merits.cost

theorem DestinationArrival.isAsGoodAs_of_dominates {h : Heading} {p : DominancePolicy}
    {a b : DestinationArrival} (hab : dominates h p a b = true) : a.IsAsGoodAs h.direction p b := by
  simp only [dominates, Merits.dominates, Bool.and_eq_true, Bool.or_eq_true, Bool.not_eq_true',
    decide_eq_true_eq, Heading.betterOrEqual_iff, ← Bool.not_eq_true,
    ← Decidable.imp_iff_not_or] at hab
  exact ⟨hab.1.1.1, hab.1.1.2, hab.1.2, hab.2⟩

/-- What listeners are shown of a journey. -/
structure PathView where
  stop : Nat
  originTime : Time
  time : Time
  rounds : Nat
  cost : Cost
  deriving DecidableEq

def DestinationArrival.view (d : DestinationArrival) : PathView :=
  ⟨d.stop, d.merits.originTime, d.merits.time, d.merits.rounds, d.merits.cost⟩

/-- The stops on the way to an arrival, in search direction, if arrivals go on from the
accepted ones with their ids. -/
inductive StopArrival.GoesVia (accepted : List StopArrival) : StopArrival → List Nat → Prop where
  | start {a : StopArrival} (hstart : a.previous = none) : GoesVia accepted a [a.stop]
  | next {a b : StopArrival} {id : Nat} {stops : List Nat} (hprevious : a.previous = some id)
      (hb : accepted[id]? = some b) (hvia : GoesVia accepted b stops) :
      GoesVia accepted a (stops ++ [a.stop])

namespace Event

/-- The arrival that was accepted, if one was. -/
def accepted? : Event → Option StopArrival
  | .arrival r => if r.action = .accept then some r.element else none
  | .path _ => none

/-- If something else rejected or dropped the element of an event, it is as good. -/
def HasGoodRival (d : Direction) (p : DominancePolicy) : Event → Prop
  | .arrival r => ∀ v, r.rival = some v → v.IsAsGoodAs d p r.element
  | .path r => ∀ v, r.rival = some v → v.IsAsGoodAs d p r.element

/-- Follows the journeys that are retained through an event. What is dropped has to be there. -/
def follow (views : Multiset PathView) : Event → Option (Multiset PathView)
  | .arrival _ => some views
  | .path r =>
    match r.action with
    | .accept => some (r.element.view ::ₘ views)
    | .reject => some views
    | .drop => if r.element.view ∈ views then some (views.erase r.element.view) else none

/-- The journeys left after events. -/
def replay (es : List Event) : Option (Multiset PathView) :=
  es.foldlM follow 0

end Event

section Via

variable {accepted more : List StopArrival} {a : StopArrival} {stops stops' : List Nat}

namespace StopArrival.GoesVia

theorem unique (h : a.GoesVia accepted stops) (h' : a.GoesVia accepted stops') :
    stops' = stops := by
  induction h generalizing stops' with
  | start hstart =>
      cases h' with
      | start => rfl
      | next hprevious => exact absurd (hstart.symm.trans hprevious) (by simp)
  | next hprevious hb _ ih =>
      cases h' with
      | start hstart => exact absurd (hstart.symm.trans hprevious) (by simp)
      | next hprevious' hb' hvia' =>
          obtain rfl := Option.some.inj (hprevious.symm.trans hprevious')
          obtain rfl := Option.some.inj (hb.symm.trans hb')
          rw [ih hvia']

/-- Ways stay as they are when more arrivals are accepted. -/
theorem mono (hmore : ∀ (id : Nat) (b : StopArrival), accepted[id]? = some b → more[id]? = some b)
    (h : a.GoesVia accepted stops) : a.GoesVia more stops := by
  induction h with
  | start hstart => exact .start hstart
  | next hprevious hb _ ih => exact .next hprevious (hmore _ _ hb) ih

theorem ne_nil (h : a.GoesVia accepted stops) : stops ≠ [] := by
  cases h <;> simp

end StopArrival.GoesVia

namespace StopTable

variable {t t' : StopTable}

theorem goesVia_chainFrom (h : t.IsLinked) {fuel id : Nat} (ha : t.arrivals[id]? = some a)
    (hfuel : id < fuel) : ∃ rest, t.chainFrom fuel id = .ok (a :: rest)
      ∧ a.GoesVia t.arrivals.toList ((a :: rest).map (·.stop)).reverse := by
  induction fuel generalizing id a with
  | zero => omega
  | succ fuel ih =>
      cases hp : a.previous with
      | none => exact ⟨[], by simp [chainFrom, ha, hp], .start hp⟩
      | some previous =>
          have hlt := h id a ha previous hp
          obtain ⟨b, hb⟩ := h.supports ha previous hp
          obtain ⟨rest, hrest, hvia⟩ := ih hb (by omega)
          refine ⟨b :: rest, ?_, ?_⟩
          · simp only [chainFrom, ha, hp, hrest, bind, Except.bind, pure, Except.pure]
          · rw [List.map_cons, List.reverse_cons]
            exact .next hp (by simpa using hb) hvia

/-- The stops that a watch compares with its own are those on the way to an arrival. -/
theorem goesVia_stopsTo (h : t.IsLinked) (ha : t.Supports a) :
    a.GoesVia t.arrivals.toList (Watch.stopsTo t a) := by
  unfold Watch.stopsTo
  cases hp : a.previous with
  | none => exact .start hp
  | some previous =>
      obtain ⟨b, hb⟩ := ha previous hp
      obtain ⟨rest, hrest, hvia⟩ :=
        goesVia_chainFrom h hb (Array.getElem?_eq_some_iff.mp hb).1
      have hstops : t.chainStops previous = .ok ((b :: rest).map (·.stop)).reverse :=
        Fallible.bind_eq_ok.mpr ⟨_, hrest, rfl⟩
      simp only [hstops, Except.toOption, Option.getD_some]
      exact .next hp (by simpa using hb) hvia

theorem stopsTo_eq (h : t.IsLinked) (h' : t'.IsLinked) (ha : t.Supports a)
    (hext : ∀ {id : Nat} {b : StopArrival}, t.arrivals[id]? = some b → t'.arrivals[id]? = some b) :
    Watch.stopsTo t' a = Watch.stopsTo t a := by
  have hsupports : t'.Supports a := fun previous hprevious =>
    (ha previous hprevious).imp fun b hb => hext hb
  refine ((goesVia_stopsTo h ha).mono fun id b hb => ?_).unique (goesVia_stopsTo h' hsupports)
  rw [Array.getElem?_toList] at hb ⊢
  exact hext hb

/-- Later on, the same events are shown. -/
theorem isShown_eq (h : t.IsLinked) (h' : t'.IsLinked)
    (hext : ∀ {id : Nat} {b : StopArrival}, t.arrivals[id]? = some b → t'.arrivals[id]? = some b)
    {e : Event} (he : ∀ r, e = .arrival r → t.Supports r.element) (watch : Option Watch) :
    e.isShown t' watch = e.isShown t watch := by
  cases e with
  | path r => rfl
  | arrival r => simp only [Event.isShown, Watch.wants, stopsTo_eq h h' (he r rfl) hext]

end StopTable

end Via

namespace Event

variable {es es' : List Event} {views : Multiset PathView}

theorem replay_append (h : replay es = some views) :
    replay (es ++ es') = es'.foldlM follow views := by
  unfold replay at h ⊢
  rw [List.foldlM_append, h]
  rfl

/-- Arrivals do not touch journeys. -/
theorem follow_arrivals (hes : ∀ e ∈ es, ∃ r, e = .arrival r) (views : Multiset PathView) :
    es.foldlM follow views = some views := by
  induction es with
  | nil => rfl
  | cons e es ih =>
      obtain ⟨⟨r, rfl⟩, hrest⟩ := List.forall_mem_cons.mp hes
      exact ih hrest

/-- What is dropped is taken out. -/
theorem follow_drops (time : Time) (d : DestinationArrival) (dropped : List DestinationArrival)
    (views : Multiset PathView) :
    (dropped.map fun old => Event.path ⟨.drop, time, old, some d, .dominated⟩).foldlM follow
      ((dropped.map DestinationArrival.view : List PathView) + views) = some views := by
  induction dropped with
  | nil => simp
  | cons old dropped ih =>
      rw [List.map_cons, List.map_cons, List.foldlM_cons, ← Multiset.cons_coe, Multiset.cons_add]
      simp only [follow, Multiset.mem_cons_self, if_true, Multiset.erase_cons_head]
      exact ih

end Event

namespace Pareto

variable {α : Type} {dominates : α → α → Bool} {front new dropped : List α} {x rival : α}

theorem add_eq_rejected (h : add dominates front x = .rejected rival) :
    rival ∈ front ∧ dominates rival x = true := by
  unfold add at h
  cases hr : rival? dominates front x with
  | none => simp [hr] at h
  | some y =>
      simp only [hr, Addition.rejected.injEq] at h
      subst h
      unfold rival? at hr
      exact ⟨List.mem_of_find?_eq_some hr, by simpa using List.find?_some hr⟩

theorem add_eq_accepted (h : add dominates front x = .accepted new dropped) :
    new = front.filter (fun y => !dominates x y) ++ [x]
      ∧ dropped = front.filter fun y => dominates x y := by
  unfold add at h
  cases hr : rival? dominates front x with
  | some y => simp [hr] at h
  | none =>
      simp only [hr, Addition.accepted.injEq] at h
      exact ⟨h.1.symm, h.2.symm⟩

end Pareto

namespace Search

variable {s : Search} {p : Progress} {a : StopArrival} {d : DestinationArrival} {t : StopTable}
  {result : Option Nat} {front : List DestinationArrival} {es : List Event}

section Journeys

theorem Weighs.hasGoodRival (h : s.Weighs p d front es) :
    ∀ e ∈ es, (∃ r, e = .path r) ∧ e.HasGoodRival s.heading.direction s.policy := by
  intro e he
  cases h with
  | rejected hadd =>
      obtain rfl := List.mem_singleton.mp he
      refine ⟨⟨_, rfl⟩, fun v hv => ?_⟩
      obtain rfl := Option.some.inj hv
      exact DestinationArrival.isAsGoodAs_of_dominates (Pareto.add_eq_rejected hadd).2
  | accepted hadd =>
      rcases List.mem_cons.mp he with rfl | he
      · exact ⟨⟨_, rfl⟩, fun v hv => absurd hv (by simp)⟩
      · obtain ⟨old, hold, rfl⟩ := List.mem_map.mp he
        refine ⟨⟨_, rfl⟩, fun v hv => ?_⟩
        obtain rfl := Option.some.inj hv
        rw [(Pareto.add_eq_accepted hadd).2] at hold
        exact DestinationArrival.isAsGoodAs_of_dominates (List.mem_filter.mp hold).2

/-- Following the events of a journey leads from the best ones before it to those after it. -/
theorem Weighs.follow (h : s.Weighs p d front es) :
    es.foldlM Event.follow (p.destination.map DestinationArrival.view : List PathView)
      = some (front.map DestinationArrival.view : List PathView) := by
  cases h with
  | rejected => rfl
  | @accepted front dropped hadd =>
      obtain ⟨hfront, hdropped⟩ := Pareto.add_eq_accepted hadd
      have hsplit : (d.view ::ₘ (p.destination.map DestinationArrival.view : List PathView))
          = ((dropped.map DestinationArrival.view : List PathView) : Multiset PathView)
            + (front.map DestinationArrival.view : List PathView) := by
        have hperm := (List.filter_append_perm
          (fun e => DestinationArrival.dominates s.heading s.policy d e) p.destination).map
            DestinationArrival.view
        rw [Multiset.cons_coe, Multiset.coe_add, Multiset.coe_eq_coe, hfront, hdropped]
        rw [List.map_append] at hperm ⊢
        refine (hperm.symm.cons d.view).trans ?_
        rw [← List.append_assoc]
        exact (List.perm_append_singleton ..).symm
      change (dropped.map _).foldlM Event.follow (d.view ::ₘ _) = _
      rw [hsplit]
      exact Event.follow_drops p.time d dropped _

end Journeys

section Arrivals

/-- What rejects an arrival is listed at its stop, in its round or in a lower one. -/
theorem isAsGoodAs_of_rejected (hp : s.Tidy p) {rival : Label}
    (h : p.table.judge s.dominates a = .ok (.rejected rival)) :
    rival.arrival.IsAsGoodAs s.heading.direction s.policy a := by
  obtain ⟨old, hold, ⟨_, hfound, hrival⟩ | ⟨-, hno⟩⟩ := judge_eq_ok h
  case inr => cases hno
  obtain rfl := Pareto.Addition.rejected.inj hrival
  rcases Option.or_eq_some_iff.mp hfound with hbelow | ⟨-, hsame⟩
  · obtain ⟨round, hround, hfind⟩ := List.exists_of_findSome?_eq_some hbelow
    have hlt := List.mem_range.mp hround
    have hmem := List.mem_of_find?_eq_some hfind
    cases hlabels : p.table.front? round a.stop with
    | none => simp [hlabels] at hmem
    | some labels =>
        rw [hlabels, Option.getD_some] at hmem
        obtain ⟨-, hlisted, hstop⟩ := hp.table.listed hlabels rival hmem
        have hdominates : s.dominates rival.arrival a = true := by
          simpa using List.find?_some hfind
        exact StopArrival.isAsGoodAs_of_dominates hstop (by omega) hdominates
  · obtain ⟨-, hround, hstop⟩ := hp.table.listed hold rival (List.mem_of_find?_eq_some hsame)
    have hdominates : s.dominates rival.arrival a = true := by
      simpa using List.find?_some hsame
    exact StopArrival.isAsGoodAs_of_dominates hstop (Nat.le_of_eq hround) hdominates

theorem Judges.hasGoodRival (hp : s.Tidy p) (ha : p.table.Supports a)
    (h : s.Judges p a t result es) : ∀ e ∈ es, (∃ r, e = .arrival r ∧ p.table.Supports r.element)
      ∧ e.HasGoodRival s.heading.direction s.policy := by
  intro e he
  cases h with
  | pruned =>
      obtain rfl := List.mem_singleton.mp he
      exact ⟨⟨_, rfl, ha⟩, fun v hv => absurd hv (by simp)⟩
  | rejected hopen hjudge =>
      obtain rfl := List.mem_singleton.mp he
      refine ⟨⟨_, rfl, ha⟩, fun v hv => ?_⟩
      obtain rfl := Option.some.inj hv
      exact isAsGoodAs_of_rejected hp hjudge
  | accepted hopen hjudge =>
      rcases List.mem_cons.mp he with rfl | he
      · exact ⟨⟨_, rfl, ha⟩, fun v hv => absurd hv (by simp)⟩
      · obtain ⟨l, hl, rfl⟩ := List.mem_map.mp he
        obtain ⟨old, hold, ⟨_, -, hno⟩ | ⟨-, hyes⟩⟩ := judge_eq_ok hjudge
        case inl => cases hno
        rw [(Pareto.Addition.accepted.inj hyes).2] at hl
        obtain ⟨hmem, hdrops⟩ := List.mem_filter.mp hl
        obtain ⟨hknown, hround, hstop⟩ := hp.table.listed hold l hmem
        refine ⟨⟨_, rfl, hp.table.linked.supports hknown⟩, fun v hv => ?_⟩
        obtain rfl := Option.some.inj hv
        exact StopArrival.isAsGoodAs_of_dominates hstop.symm (Nat.le_of_eq hround.symm) hdrops

/-- An arrival is among the accepted ones if its events say so. -/
theorem Judges.arrivals_eq (h : s.Judges p a t result es) :
    t.arrivals.toList = p.table.arrivals.toList ++ es.filterMap Event.accepted? := by
  cases h with
  | pruned | rejected => simp [Event.accepted?]
  | @accepted labels dropped =>
      have hdrops : (dropped.map fun old => Event.arrival
          ⟨.drop, p.time, old.arrival, some a, .dominated⟩).filterMap Event.accepted? = [] := by
        simp [Event.accepted?]
      rw [List.filterMap_cons, hdrops]
      simp [Event.accepted?, StopTable.place]

end Arrivals

end Search
end JourneyPlanner
