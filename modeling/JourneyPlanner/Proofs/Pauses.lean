import JourneyPlanner.Proofs.Answering

/-!
Where a search may be stopped. Before each iteration and before each round it pauses to ask
whether to stop. The pauses of a search that nobody stops say all about how it ends when
somebody does: with what it held at the first pause at which the answer is to stop.
-/

namespace JourneyPlanner

/-- Once it was asked whether to stop. -/
def Progress.asked (p : Progress) : Progress :=
  { p with checks := p.checks + 1 }

namespace Search

/-- Why to stop at a pause, if at all. -/
def verdict? (s : Search) (p : Progress) : Option SearchStatus :=
  s.supervisor.verdict s.timeout p.checks p.arrivalReports

/-- What is held before each round if nobody stops the search, and after the last one. -/
def pausesInRounds (s : Search) : Nat → Nat → Progress →
    Except InternalFault (List Progress × Progress)
  | 0, _, p => .ok ([], p)
  | count + 1, round, p =>
    if (p.table.touchedIn (round - 1)).isEmpty then .ok ([], p)
    else do
      let q ← s.playRound round p.asked
      let (pauses, last) ← pausesInRounds s count (round + 1) q
      return (p :: pauses, last)

/-- What is held before each iteration and each round if nobody stops the search, and at
its end. -/
def pausesIn (s : Search) : List Time → Progress → Except InternalFault (List Progress × Progress)
  | [], p => .ok ([], p)
  | time :: times, p => do
    let q ← s.seed (begin p.asked time) time
    let (within, q) ← s.pausesInRounds s.maxRounds 1 q
    let (later, last) ← pausesIn s times q
    return (p :: (within ++ later), last)

def pauses (s : Search) : Except InternalFault (List Progress × Progress) :=
  s.pausesIn s.times s.start

/-- The first pause at which the search is stopped, and why. -/
def stop? (s : Search) (pauses : List Progress) : Option (SearchStatus × Progress) :=
  pauses.findSome? fun p => (s.verdict? p).map fun status => (status, p)

/-- How a search ends that would have gone on to some progress. -/
def outcome (s : Search) (pauses : List Progress) (last : Progress) :
    Option SearchStatus × Progress :=
  match s.stop? pauses with
  | some (status, p) => (some status, p.asked)
  | none => (none, last)

variable {s : Search} {p q last : Progress} {pauses : List Progress} {times : List Time}
  {count round : Nat}

theorem ask_eq (s : Search) (p : Progress) : s.ask p = (s.verdict? p, p.asked) :=
  rfl

theorem outcome_cons_of_stopped {status : SearchStatus} (h : s.verdict? p = some status) :
    s.outcome (p :: pauses) last = (some status, p.asked) := by
  simp only [outcome, stop?, List.findSome?_cons, h, Option.map_some]

theorem outcome_cons (h : s.verdict? p = none) : s.outcome (p :: pauses) last = s.outcome pauses last := by
  simp only [outcome, stop?, List.findSome?_cons, h, Option.map_none]

/-- Pauses only matter as long as the search is not stopped before them. -/
theorem outcome_append (earlier later : List Progress) (last q : Progress) :
    s.outcome (earlier ++ later) last =
      if (s.outcome earlier q).1.isSome then s.outcome earlier q else s.outcome later last := by
  induction earlier with
  | nil => rfl
  | cons p earlier ih =>
      rw [List.cons_append]
      cases h : s.verdict? p with
      | some status =>
          rw [outcome_cons_of_stopped h, outcome_cons_of_stopped h]
          rfl
      | none => rw [outcome_cons h, outcome_cons h, ih]

section Supervised

theorem playRounds_of_pauses (h : s.pausesInRounds count round p = .ok (pauses, last)) :
    s.playRounds count round p = .ok (s.outcome pauses last) := by
  induction count generalizing round p pauses with
  | zero =>
      obtain ⟨rfl, rfl⟩ := Prod.mk.inj (Except.ok.inj h)
      rfl
  | succ count ih =>
      unfold pausesInRounds at h
      unfold playRounds
      split at h
      case isTrue hnothing =>
        obtain ⟨rfl, rfl⟩ := Prod.mk.inj (Except.ok.inj h)
        rw [if_pos hnothing]
        rfl
      case isFalse hsome =>
        simp only [Fallible.bind_eq_ok, Fallible.pure_eq_ok, Prod.mk.injEq] at h
        obtain ⟨q, hround, ⟨rest, last'⟩, hrest, rfl, rfl⟩ := h
        rw [if_neg hsome, ask_eq]
        cases hverdict : s.verdict? p with
        | some status => rw [outcome_cons_of_stopped hverdict]
        | none =>
            rw [outcome_cons hverdict]
            exact Fallible.bind_eq_ok.mpr ⟨q, hround, ih hrest⟩

/-- A search ends at the first pause at which it is stopped, or when it is complete. -/
theorem iterations_of_pauses (h : s.pausesIn times p = .ok (pauses, last)) :
    s.iterations times p =
      .ok ((s.outcome pauses last).1.getD .complete, (s.outcome pauses last).2) := by
  induction times generalizing p pauses with
  | nil =>
      obtain ⟨rfl, rfl⟩ := Prod.mk.inj (Except.ok.inj h)
      rfl
  | cons time times ih =>
      simp only [pausesIn, Fallible.bind_eq_ok, Fallible.pure_eq_ok, Prod.mk.injEq] at h
      obtain ⟨q, hseed, ⟨within, q'⟩, hwithin, ⟨later, last'⟩, hlater, rfl, rfl⟩ := h
      rw [iterations, ask_eq]
      cases hverdict : s.verdict? p with
      | some status =>
          rw [outcome_cons_of_stopped hverdict]
          rfl
      | none =>
          rw [outcome_cons hverdict, outcome_append within later last' q']
          refine Fallible.bind_eq_ok.mpr ⟨q, hseed, ?_⟩
          refine Fallible.bind_eq_ok.mpr ⟨_, playRounds_of_pauses hwithin, ?_⟩
          unfold outcome
          cases s.stop? within with
          | some stopped => rfl
          | none => exact ih hlater

theorem run_of_pauses (h : s.pauses = .ok (pauses, last)) :
    s.run = .ok ((s.outcome pauses last).1.getD .complete, (s.outcome pauses last).2) :=
  iterations_of_pauses h

end Supervised

/-! A search that nobody stops has all its pauses. -/

section Unhindered

variable (hfinish : s.supervisor.LetsFinish s.timeout)

include hfinish in
theorem pauses_of_playRounds {stopped : Option SearchStatus}
    (h : s.playRounds count round p = .ok (stopped, last)) :
    ∃ pauses, s.pausesInRounds count round p = .ok (pauses, last) := by
  induction count generalizing round p with
  | zero =>
      obtain ⟨-, rfl⟩ := Prod.mk.inj (Except.ok.inj h)
      exact ⟨[], rfl⟩
  | succ count ih =>
      unfold playRounds at h
      unfold pausesInRounds
      split at h
      case isTrue hnothing =>
        obtain ⟨-, rfl⟩ := Prod.mk.inj (Except.ok.inj h)
        exact ⟨[], if_pos hnothing⟩
      case isFalse hsome =>
        rw [ask, hfinish] at h
        obtain ⟨q, hround, hrest⟩ := Fallible.bind_eq_ok.mp h
        obtain ⟨rest, hpauses⟩ := ih hrest
        rw [if_neg hsome]
        exact ⟨p :: rest, Fallible.bind_eq_ok.mpr ⟨q, hround,
          Fallible.bind_eq_ok.mpr ⟨_, hpauses, rfl⟩⟩⟩

include hfinish in
theorem pauses_of_iterations {status : SearchStatus}
    (h : s.iterations times p = .ok (status, last)) :
    ∃ pauses, s.pausesIn times p = .ok (pauses, last) := by
  induction times generalizing p with
  | nil =>
      obtain ⟨-, rfl⟩ := Prod.mk.inj (Except.ok.inj h)
      exact ⟨[], rfl⟩
  | cons time times ih =>
      rw [iterations, ask, hfinish] at h
      obtain ⟨q, hseed, h⟩ := Fallible.bind_eq_ok.mp h
      obtain ⟨⟨stopped, q'⟩, hrounds, h⟩ := Fallible.bind_eq_ok.mp h
      obtain rfl := playRounds_of_letsFinish hfinish hrounds
      obtain ⟨within, hwithin⟩ := pauses_of_playRounds hfinish hrounds
      obtain ⟨later, hlater⟩ := ih h
      refine ⟨p :: (within ++ later), ?_⟩
      simp only [pausesIn, Fallible.bind_eq_ok]
      exact ⟨q, hseed, _, hwithin, _, hlater, rfl⟩

end Unhindered

/-- The same search, stopped by nobody. -/
def uninterrupted (s : Search) : Search :=
  { s with
    supervisor := {}
    timeout := none }

/-! Who supervises a search makes no difference to what it does until it is stopped. -/

section Uninterrupted

theorem letsFinish_uninterrupted (s : Search) :
    s.uninterrupted.supervisor.LetsFinish s.uninterrupted.timeout :=
  fun _ _ => rfl

/-- Who watches a search and who may stop it makes no difference to the trips that it catches. -/
theorem boardAll_overseen (s : Search) (watch : Option Watch) (supervisor : Supervisor)
    (timeout : Option Nat) :
    { s with watch := watch, supervisor := supervisor, timeout := timeout }.boardAll
      = s.boardAll := by
  funext v round position labels
  induction labels with
  | nil => rfl
  | cons l labels ih =>
      simp only [boardAll, ih]
      rfl

theorem boardAll_uninterrupted (s : Search) : s.uninterrupted.boardAll = s.boardAll :=
  s.boardAll_overseen s.watch {} none

theorem playRound_uninterrupted (s : Search) : s.uninterrupted.playRound = s.playRound := by
  have hstop : s.uninterrupted.scanStop = s.scanStop := by
    funext v round state entry
    simp only [scanStop, boardAll_uninterrupted]
    rfl
  have hscan : s.uninterrupted.scanPattern = s.scanPattern := by
    funext round p pattern
    simp only [scanPattern, hstop]
    rfl
  funext round p
  simp only [playRound, transitPhase, hscan]
  rfl

theorem pausesInRounds_uninterrupted (s : Search) :
    s.uninterrupted.pausesInRounds = s.pausesInRounds := by
  funext count
  induction count with
  | zero => rfl
  | succ count ih =>
      funext round p
      simp only [pausesInRounds, playRound_uninterrupted, ih]

theorem pauses_uninterrupted (s : Search) : s.uninterrupted.pauses = s.pauses := by
  have hpauses : s.uninterrupted.pausesIn = s.pausesIn := by
    funext times
    induction times with
    | nil => rfl
    | cons time times ih =>
        funext p
        simp only [pausesIn, pausesInRounds_uninterrupted, ih]
        rfl
  exact congrFun (congrFun hpauses s.times) s.start

end Uninterrupted

end Search
end JourneyPlanner
