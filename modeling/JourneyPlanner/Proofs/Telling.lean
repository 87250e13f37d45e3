import JourneyPlanner.Proofs.Shown

/-!
What a search tells of its decisions. A decision about an arrival or a journey has a result
and a list of events, neither of which depends on who watches; the events that somebody wants
to see are then written down one after the other.
-/

namespace JourneyPlanner

namespace Event

/-- The time of the iteration in which something happened. -/
def time : Event → Time
  | .arrival r => r.time
  | .path r => r.time

/-- Whether somebody who watches wants to see an event, given the table after it. -/
def isShown (t : StopTable) (watch : Option Watch) : Event → Bool
  | .arrival r => watch.any fun w => w.arrivals && w.wants t r.element
  | .path _ => watch.any (·.paths)

end Event

namespace Progress

/-- The same progress, apart from what was reported of it. -/
structure Agrees (p q : Progress) : Prop where
  table : q.table = p.table
  destination : q.destination = p.destination
  searched : q.searched = p.searched
  highestRound : q.highestRound = p.highestRound
  checks : q.checks = p.checks

variable {p q r : Progress}

theorem Agrees.refl (p : Progress) : p.Agrees p :=
  ⟨rfl, rfl, rfl, rfl, rfl⟩

theorem Agrees.symm (h : p.Agrees q) : q.Agrees p :=
  ⟨h.table.symm, h.destination.symm, h.searched.symm, h.highestRound.symm, h.checks.symm⟩

theorem Agrees.trans (h : p.Agrees q) (h' : q.Agrees r) : p.Agrees r :=
  ⟨h'.table.trans h.table, h'.destination.trans h.destination, h'.searched.trans h.searched,
    h'.highestRound.trans h.highestRound, h'.checks.trans h.checks⟩

theorem Agrees.time (h : p.Agrees q) : q.time = p.time := by
  unfold Progress.time
  rw [h.searched]

end Progress

namespace Search

variable {s : Search} {p q : Progress} {a : StopArrival} {d : DestinationArrival}

/-- Reports an event to who watches it. -/
def tell (s : Search) (p : Progress) : Event → Progress
  | .arrival r => s.reportArrival p r.action r.element r.rival r.reason
  | .path r => s.reportPath p r.action r.element r.rival r.reason

section Tell

theorem tell_agrees (s : Search) (p : Progress) (e : Event) : p.Agrees (s.tell p e) := by
  cases e with
  | arrival r =>
      simp only [tell, reportArrival]
      split
      · exact .refl p
      · split <;> exact ⟨rfl, rfl, rfl, rfl, rfl⟩
  | path r =>
      simp only [tell, reportPath]
      split
      · exact .refl p
      · split <;> exact ⟨rfl, rfl, rfl, rfl, rfl⟩

/-- What is told is written down if it is to be shown. -/
theorem events_tell {e : Event} (he : e.time = p.time) :
    (s.tell p e).events.toList = p.events.toList ++ [e].filter (·.isShown p.table s.watch) := by
  cases e with
  | arrival r =>
      obtain ⟨action, time, a, rival, reason⟩ := r
      obtain rfl : time = p.time := he
      unfold tell reportArrival Event.isShown
      cases s.watch with
      | none => simp
      | some w => by_cases hw : (w.arrivals && w.wants p.table a) = true <;> simp [hw]
  | path r =>
      obtain ⟨action, time, d, rival, reason⟩ := r
      obtain rfl : time = p.time := he
      unfold tell reportPath Event.isShown
      cases s.watch with
      | none => simp
      | some w => by_cases hw : w.paths = true <;> simp [hw]

/-- Telling changes nothing but what was reported. -/
theorem tellAll_agrees (s : Search) (p : Progress) (es : List Event) :
    p.Agrees (es.foldl s.tell p) :=
  List.foldlRecOn es s.tell (motive := fun q => p.Agrees q) (.refl p)
    fun q hq e _ => hq.trans (s.tell_agrees q e)

theorem events_tellAll {es : List Event} (hes : ∀ e ∈ es, e.time = p.time) :
    (es.foldl s.tell p).events.toList
      = p.events.toList ++ es.filter (·.isShown p.table s.watch) := by
  induction es generalizing p with
  | nil => simp
  | cons e es ih =>
      obtain ⟨he, hes⟩ := List.forall_mem_cons.mp hes
      have hsame := s.tell_agrees p e
      rw [List.foldl_cons, ih (fun e' he' => (hes e' he').trans hsame.time.symm), hsame.table,
        events_tell he, List.append_assoc, ← List.filter_append, List.singleton_append]

end Tell

/-- What becomes of an arrival: the table after it, the id that it gets if it is accepted, and
what there is to tell. -/
inductive Judges (s : Search) (p : Progress) (a : StopArrival) :
    StopTable → Option Nat → List Event → Prop where
  | pruned {journey : DestinationArrival} (hpruned : s.pruned? p a = some journey) :
      Judges s p a p.table none [.arrival ⟨.reject, p.time, a, none, .pruned journey⟩]
  | rejected {rival : Label} (hopen : s.pruned? p a = none)
      (hjudge : p.table.judge s.dominates a = .ok (.rejected rival)) :
      Judges s p a p.table none [.arrival ⟨.reject, p.time, a, some rival.arrival, .dominated⟩]
  | accepted {labels dropped : List Label} (hopen : s.pruned? p a = none)
      (hjudge : p.table.judge s.dominates a = .ok (.accepted labels dropped)) :
      Judges s p a (p.table.place a labels) (some p.table.numAccepted)
        (.arrival ⟨.accept, p.time, a, none, .accepted⟩ :: dropped.map fun old =>
          .arrival ⟨.drop, p.time, old.arrival, some a, .dominated⟩)

/-- What becomes of a journey: the best ones after it, and what there is to tell. -/
inductive Weighs (s : Search) (p : Progress) (d : DestinationArrival) :
    List DestinationArrival → List Event → Prop where
  | rejected {rival : DestinationArrival}
      (hadd : Pareto.add (DestinationArrival.dominates s.heading s.policy) p.destination d
        = .rejected rival) :
      Weighs s p d p.destination [.path ⟨.reject, p.time, d, some rival, .dominated⟩]
  | accepted {front dropped : List DestinationArrival}
      (hadd : Pareto.add (DestinationArrival.dominates s.heading s.policy) p.destination d
        = .accepted front dropped) :
      Weighs s p d front
        (.path ⟨.accept, p.time, d, none, .accepted⟩ :: dropped.map fun old =>
          .path ⟨.drop, p.time, old, some d, .dominated⟩)

section Decisions

variable {t : StopTable} {result : Option Nat} {front : List DestinationArrival} {es : List Event}

theorem Judges.time (h : s.Judges p a t result es) : ∀ e ∈ es, e.time = p.time := by
  intro e he
  cases h with
  | pruned | rejected => rw [List.mem_singleton.mp he]; rfl
  | accepted =>
      rcases List.mem_cons.mp he with rfl | he
      · rfl
      · obtain ⟨old, -, rfl⟩ := List.mem_map.mp he
        rfl

theorem Weighs.time (h : s.Weighs p d front es) : ∀ e ∈ es, e.time = p.time := by
  intro e he
  cases h with
  | rejected => rw [List.mem_singleton.mp he]; rfl
  | accepted =>
      rcases List.mem_cons.mp he with rfl | he
      · rfl
      · obtain ⟨old, -, rfl⟩ := List.mem_map.mp he
        rfl

/-- An arrival is added by judging it and telling what became of it. -/
theorem addArrival_eq_ok {p' : Progress} : s.addArrival p a = .ok (p', result) ↔
    ∃ t es, s.Judges p a t result es ∧ p' = es.foldl s.tell { p with table := t } := by
  constructor
  · intro h
    unfold addArrival at h
    cases hpruned : s.pruned? p a with
    | some journey =>
        simp only [hpruned, Except.ok.injEq, Prod.mk.injEq] at h
        obtain ⟨rfl, rfl⟩ := h
        exact ⟨_, _, .pruned hpruned, rfl⟩
    | none =>
        simp only [hpruned, Fallible.bind_eq_ok] at h
        obtain ⟨addition, hjudge, h⟩ := h
        cases addition with
        | rejected rival =>
            simp only [Fallible.pure_eq_ok, Prod.mk.injEq] at h
            obtain ⟨rfl, rfl⟩ := h
            exact ⟨_, _, .rejected hpruned hjudge, rfl⟩
        | accepted labels dropped =>
            simp only [Fallible.pure_eq_ok, Prod.mk.injEq] at h
            obtain ⟨rfl, rfl⟩ := h
            refine ⟨_, _, .accepted hpruned hjudge, ?_⟩
            rw [List.foldl_cons, List.foldl_map]
            rfl
  · rintro ⟨t, es, hjudges, rfl⟩
    unfold addArrival
    cases hjudges with
    | pruned hpruned =>
        rw [hpruned]
        rfl
    | rejected hopen hjudge =>
        rw [hopen, hjudge]
        rfl
    | accepted hopen hjudge =>
        rw [hopen, hjudge, List.foldl_cons, List.foldl_map]
        rfl

/-- Every journey is weighed. -/
theorem exists_weighs (s : Search) (p : Progress) (d : DestinationArrival) :
    ∃ front es, s.Weighs p d front es := by
  cases hadd : Pareto.add (DestinationArrival.dominates s.heading s.policy) p.destination d with
  | rejected rival => exact ⟨_, _, .rejected hadd⟩
  | accepted front dropped => exact ⟨_, _, .accepted hadd⟩

/-- A journey is added by weighing it and telling what became of it. -/
theorem Weighs.addJourney (h : s.Weighs p d front es) :
    s.addJourney p d = es.foldl s.tell { p with destination := front } := by
  unfold Search.addJourney
  cases h with
  | rejected hadd =>
      rw [hadd]
      rfl
  | accepted hadd =>
      rw [hadd, List.foldl_cons, List.foldl_map]
      rfl

end Decisions

/-- The same search, watched by somebody else. -/
def watchedBy (s : Search) (watch : Option Watch) : Search :=
  { s with watch := watch }

/-! Who watches a search makes no difference to its decisions. -/

section Watched

variable {t : StopTable} {result : Option Nat} {front : List DestinationArrival} {es : List Event}
  (watch : Option Watch)

theorem pruned?_watchedBy (h : p.Agrees q) (a : StopArrival) :
    (s.watchedBy watch).pruned? q a = s.pruned? p a := by
  unfold pruned?
  rw [h.destination]
  rfl

theorem Judges.watchedBy (hagree : p.Agrees q) (h : s.Judges p a t result es) :
    (s.watchedBy watch).Judges q a t result es := by
  have hpruned := pruned?_watchedBy (s := s) watch hagree a
  cases h with
  | pruned hjourney =>
      rw [← hagree.table, ← hagree.time]
      exact .pruned (hpruned.trans hjourney)
  | rejected hopen hjudge =>
      rw [← hagree.table] at hjudge
      rw [← hagree.table, ← hagree.time]
      exact .rejected (hpruned.trans hopen) hjudge
  | accepted hopen hjudge =>
      rw [← hagree.table] at hjudge
      rw [← hagree.table, ← hagree.time]
      exact .accepted (hpruned.trans hopen) hjudge

theorem Weighs.watchedBy (hagree : p.Agrees q) (h : s.Weighs p d front es) :
    (s.watchedBy watch).Weighs q d front es := by
  cases h with
  | rejected hadd =>
      rw [← hagree.destination] at hadd
      rw [← hagree.destination, ← hagree.time]
      exact .rejected hadd
  | accepted hadd =>
      rw [← hagree.destination] at hadd
      rw [← hagree.time]
      exact .accepted hadd

end Watched

end Search
end JourneyPlanner
