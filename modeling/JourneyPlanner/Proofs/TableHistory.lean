import JourneyPlanner.Proofs.ShownRun
import JourneyPlanner.Proofs.Spanning
import JourneyPlanner.Proofs.Telling

/-!
A search as a sequence of turns. Everything a search does is one of a few turns: an iteration
begins, an arrival or a journey is added, a round is over. What each of them keeps every search
keeps. The turns also say between which tables of arrivals a search passes, in their order.
-/

namespace JourneyPlanner

namespace Fallible

variable {ε α β σ : Type}

/-- What is noted once a step has succeeded. -/
def onward (x : Except ε σ) (note : σ → List β) : List β :=
  match x with
  | .ok p => note p
  | .error _ => []

/-- What is noted of each step of a run over a list, as far as it succeeds. -/
def along (f : σ → α → Except ε σ) (note : σ → α → List β) : σ → List α → List β
  | _, [] => []
  | p, x :: xs => note p x ++ onward (f p x) fun p' => along f note p' xs

end Fallible

open Fallible (onward along)

namespace StopTable

/-- How an arrival is linked to the ones accepted before its id: after a ride to one of the round
before, after a walk to a ride of the same round. -/
def Follows (t : StopTable) (id : Nat) (a : StopArrival) : Prop :=
  match a.kind with
  | .access _ => a.previous = none ∧ a.round = 0
  | .transit _ _ _ _ => ∃ previous b, a.previous = some previous ∧ previous < id
      ∧ t.arrivals[previous]? = some b ∧ b.round + 1 = a.round
  | .transfer _ _ => ∃ previous b, a.previous = some previous ∧ previous < id
      ∧ t.arrivals[previous]? = some b ∧ b.round = a.round ∧ b.isTransit = true

theorem Follows.of_extends {t t' : StopTable} (ht : t.Extends t') {id : Nat} {a : StopArrival}
    (h : t.Follows id a) : t'.Follows id a := by
  unfold Follows at *
  cases hkind : a.kind with
  | access duration =>
      simp only [hkind] at h ⊢
      exact h
  | transit pattern trip boardPosition position =>
      simp only [hkind] at h ⊢
      obtain ⟨previous, b, hprevious, hlt, hb, hround⟩ := h
      exact ⟨previous, b, hprevious, hlt, ht.arrivals hb, hround⟩
  | transfer fromStop duration =>
      simp only [hkind] at h ⊢
      obtain ⟨previous, b, hprevious, hlt, hb, hround⟩ := h
      exact ⟨previous, b, hprevious, hlt, ht.arrivals hb, hround⟩

theorem Follows.supports {t : StopTable} {id : Nat} {a : StopArrival} (h : t.Follows id a) :
    t.Supports a := by
  unfold Follows at h
  cases hkind : a.kind with
  | access duration =>
      simp only [hkind] at h
      intro previous hprevious
      simp [h] at hprevious
  | transit pattern trip boardPosition position =>
      simp only [hkind] at h
      obtain ⟨previous, b, hprevious, -, hb, -⟩ := h
      exact supports_of_previous hprevious hb
  | transfer fromStop duration =>
      simp only [hkind] at h
      obtain ⟨previous, b, hprevious, -, hb, -⟩ := h
      exact supports_of_previous hprevious hb

end StopTable

namespace Search

section Tables

/-- The tables after each step. -/
def tablesAlong {α : Type} (f : Progress → α → Except InternalFault Progress) :
    Progress → List α → List StopTable :=
  along f fun p x => onward (f p x) fun p' => [p'.table]

def seedTables (s : Search) (p : Progress) (time : Time) : List StopTable :=
  tablesAlong
    (fun p leg => (s.addArrival p (s.originArrival time p.table.iteration leg)).map (·.1))
    p s.origin

def stopTables (s : Search) (v : PatternView) (round : Nat) (state : Progress × List Boarding)
    (entry : Nat × Nat) : List StopTable :=
  if s.filter.allowsStop entry.1 then
    tablesAlong (s.alight v round entry.2 entry.1) state.1 state.2
  else []

def patternTables (s : Search) (round : Nat) (p : Progress) (pattern : Nat) : List StopTable :=
  onward (s.view pattern) fun v =>
    if v.numTrips = 0 then []
    else
      along (s.scanStop v round) (s.stopTables v round) (p, []) (s.heading.inOrder v.stops.toList)

def transitTables (s : Search) (round : Nat) (p : Progress) : List StopTable :=
  onward (s.patternsToScan p.table round) (along (s.scanPattern round) (s.patternTables round) p)

def walkTables (s : Search) (p : Progress) (id : Nat) : List StopTable :=
  if p.table.isCurrent id then
    onward (p.table.arrival id) fun a =>
      if a.isTransit then
        tablesAlong (fun p w => (s.addArrival p (s.walkArrival id a w)).map (·.1)) p
          (s.heading.walks s.timetable a.stop)
      else []
  else []

def transferTables (s : Search) (round : Nat) (p : Progress) : List StopTable :=
  along s.walkFrom s.walkTables p (p.table.touchedIn round)

def roundTables (s : Search) (round : Nat) (p : Progress) : List StopTable :=
  s.transitTables round p ++ onward (s.transitPhase round p) (s.transferTables round)

def roundsTables (s : Search) : Nat → Nat → Progress → List StopTable
  | 0, _, _ => []
  | count + 1, round, p =>
    if (p.table.touchedIn (round - 1)).isEmpty then []
    else
      match s.ask p with
      | (some _, _) => []
      | (none, p) =>
        s.roundTables round p ++ onward (s.playRound round p) (roundsTables s count (round + 1))

def iterationsTables (s : Search) : List Time → Progress → List StopTable
  | [], _ => []
  | time :: times, p =>
    match s.ask p with
    | (some _, _) => []
    | (none, p) =>
      (begin p time).table :: s.seedTables (begin p time) time ++
        onward (s.seed (begin p time) time) fun p =>
          s.roundsTables s.maxRounds 1 p ++
            onward (s.playRounds s.maxRounds 1 p) fun
              | (some _, _) => []
              | (none, p) => iterationsTables s times p

/-- The tables that a search passes through: the empty one, the one each iteration begins with,
and one wherever an arrival has just been offered, be it accepted or not. -/
def tables (s : Search) : List StopTable :=
  s.start.table :: s.iterationsTables s.times s.start

end Tables

/-- Where a search is: the times of the iterations still to come, the round it plays, and what it
has found. -/
structure Moment where
  times : List Time
  round? : Option Nat
  progress : Progress

/-- The turns of a search, with the tables they lead to. -/
inductive Turn (s : Search) : Moment → List StopTable → Moment → Prop
  | begin (time : Time) (times : List Time) (round? : Option Nat) (p : Progress) :
      Turn s ⟨time :: times, round?, p⟩ [(begin p time).table] ⟨times, some 0, begin p time⟩
  | arrival {times : List Time} {p p' : Progress} {a : StopArrival} {result : Option Nat}
      (hfollows : p.table.Follows p.table.numAccepted a)
      (hiteration : a.iteration = p.table.iteration) (hadd : s.addArrival p a = .ok (p', result)) :
      Turn s ⟨times, some a.round, p⟩ [p'.table] ⟨times, some a.round, p'⟩
  | again (times : List Time) (round : Nat) (p : Progress) :
      Turn s ⟨times, some round, p⟩ [p.table] ⟨times, some round, p⟩
  | journey {times : List Time} {round : Nat} {p : Progress} {d : DestinationArrival}
      (hknown : ∃ a, p.table.arrivals[d.previous]? = some a) :
      Turn s ⟨times, some round, p⟩ [] ⟨times, some round, s.addJourney p d⟩
  | count {times : List Time} {round? : Option Nat} {p : Progress} (highestRound checks : Nat) :
      Turn s ⟨times, round?, p⟩ [] ⟨times, round?,
        { p with highestRound := highestRound, checks := checks }⟩
  | next (times : List Time) (round : Nat) (p : Progress) :
      Turn s ⟨times, some round, p⟩ [] ⟨times, some (round + 1), p⟩

inductive Turns (s : Search) : Moment → List StopTable → Moment → Prop
  | stay (x : Moment) : Turns s x [] x
  | turn {x y z : Moment} {ts us : List StopTable} (hturn : Turn s x ts y)
      (hturns : Turns s y us z) : Turns s x (ts ++ us) z

section Turns

variable {s : Search} {x y z : Moment} {ts us : List StopTable}

theorem Turn.turns (h : Turn s x ts y) : Turns s x ts y :=
  List.append_nil ts ▸ .turn h (.stay y)

theorem Turns.trans (h : Turns s x ts y) (h' : Turns s y us z) : Turns s x (ts ++ us) z := by
  induction h with
  | stay x => exact h'
  | turn hturn _ ih =>
      rw [List.append_assoc]
      exact .turn hturn (ih h')

/-- What every turn keeps. -/
theorem Turns.keeps {I : Moment → Prop} (step : ∀ x ts y, I x → Turn s x ts y → I y) (hx : I x)
    (h : Turns s x ts y) : I y := by
  induction h with
  | stay x => exact hx
  | turn hturn _ ih => exact ih (step _ _ _ hx hturn)

variable {times : List Time} {round? : Option Nat}

/-- A run over a list, each step of which is made of turns. -/
theorem Turns.along {σ α : Type} {f : σ → α → Except InternalFault σ}
    {note : σ → α → List StopTable} (view : σ → Progress) {I : σ → Prop} {xs : List α} {p q : σ}
    (step : ∀ x ∈ xs, ∀ p p', I p → f p x = .ok p' → I p'
      ∧ Turns s ⟨times, round?, view p⟩ (note p x) ⟨times, round?, view p'⟩)
    (hp : I p) (h : xs.foldlM f p = .ok q) :
    I q ∧ Turns s ⟨times, round?, view p⟩ (along f note p xs) ⟨times, round?, view q⟩ := by
  induction xs generalizing p with
  | nil =>
      rw [List.foldlM_nil, Fallible.pure_eq_ok] at h
      subst h
      exact ⟨hp, .stay _⟩
  | cons x xs ih =>
      obtain ⟨p', hx, hxs⟩ := Fallible.foldlM_cons_eq_ok.mp h
      obtain ⟨hp', hfirst⟩ := step x (List.mem_cons_self ..) p p' hp hx
      obtain ⟨hq, hrest⟩ := ih (fun y hy => step y (List.mem_cons_of_mem _ hy)) hp' hxs
      refine ⟨hq, ?_⟩
      rw [Fallible.along, hx]
      exact hfirst.trans hrest

/-- A run over a list, each step of which leads to one table. -/
theorem Turns.tablesAlong {α : Type} {f : Progress → α → Except InternalFault Progress}
    {I : Progress → Prop} {xs : List α} {p q : Progress}
    (step : ∀ x ∈ xs, ∀ p p', I p → f p x = .ok p' → I p'
      ∧ Turns s ⟨times, round?, p⟩ [p'.table] ⟨times, round?, p'⟩)
    (hp : I p) (h : xs.foldlM f p = .ok q) :
    I q ∧ Turns s ⟨times, round?, p⟩ (tablesAlong f p xs) ⟨times, round?, q⟩ := by
  refine Turns.along id (fun x hx p p' hp hstep => ?_) hp h
  rw [hstep]
  exact step x hx p p' hp hstep

end Turns

section Steps

variable {s : Search} {p p' : Progress} (times : List Time) {n : Nat}

/-- What an arrival does to the table when it is added. -/
theorem table_of_addArrival {a : StopArrival} {result : Option Nat}
    (h : s.addArrival p a = .ok (p', result)) :
    p'.table = p.table ∨ ∃ old, p.table.front? a.round a.stop = some old
      ∧ (p.table.rivalBelow? s.dominates a).or (old.find? fun l => s.dominates l.arrival a) = none
      ∧ p'.table = p.table.place a (p.table.labelsAfter s.dominates old a) := by
  obtain ⟨t, es, hjudges, rfl⟩ := addArrival_eq_ok.mp h
  rw [(tellAll_agrees s _ es).table]
  cases hjudges with
  | pruned | rejected => exact Or.inl rfl
  | accepted _ hjudge =>
      obtain ⟨old, hold, ⟨rival, -, hrejected⟩ | ⟨hnone, haccepted⟩⟩ := judge_eq_ok hjudge
      · cases hrejected
      · obtain ⟨rfl, -⟩ := Pareto.Addition.accepted.inj haccepted
        exact Or.inr ⟨old, hold, hnone, rfl⟩

/-- Adding the arrivals of a list one after the other. -/
theorem turns_addAll {α : Type} (hp : s.Tidy p) {xs : List α} {f : Progress → α → StopArrival}
    (hf : ∀ x ∈ xs, ∀ q, s.Tidy q → p.table.Extends q.table →
      q.table.Follows q.table.numAccepted (f q x) ∧ (f q x).iteration = q.table.iteration
        ∧ (f q x).round = n)
    (h : xs.foldlM (fun p x => (s.addArrival p (f p x)).map (·.1)) p = .ok p') :
    (s.Tidy p' ∧ p.table.Extends p'.table) ∧
      Turns s ⟨times, some n, p⟩ (tablesAlong (fun p x => (s.addArrival p (f p x)).map (·.1)) p xs)
        ⟨times, some n, p'⟩ := by
  refine Turns.tablesAlong (I := fun q => s.Tidy q ∧ p.table.Extends q.table)
    (fun x hx q q' hq hstep => ?_) ⟨hp, .refl _⟩ h
  obtain ⟨⟨q₁, result⟩, hadd, rfl⟩ := Fallible.map_eq_ok.mp hstep
  obtain ⟨hfollows, hiteration, rfl⟩ := hf x hx q hq.1 hq.2
  obtain ⟨htidy, hext, -⟩ := addArrival_shows hq.1 hfollows.supports hiteration hadd
  exact ⟨⟨htidy, hq.2.trans hext⟩, (Turn.arrival hfollows hiteration hadd).turns⟩

theorem turns_seed (hp : s.Tidy p) {time : Time} (h : s.seed p time = .ok p') :
    s.Tidy p' ∧ Turns s ⟨times, some 0, p⟩ (s.seedTables p time) ⟨times, some 0, p'⟩ := by
  obtain ⟨⟨htidy, -⟩, hturns⟩ := turns_addAll times hp
    (f := fun p leg => s.originArrival time p.table.iteration leg)
    (fun leg _ q _ _ => ⟨⟨rfl, rfl⟩, rfl, rfl⟩) h
  exact ⟨htidy, hturns⟩

theorem turns_reachDestination {id : Nat} {a : StopArrival}
    (ha : p.table.arrivals[id]? = some a) :
    Turns s ⟨times, some n, p⟩ [] ⟨times, some n, s.reachDestination p id a⟩ := by
  unfold reachDestination
  induction s.targetDurations a.stop generalizing p with
  | nil => exact .stay _
  | cons duration durations ih =>
      have hturn : Turn s ⟨times, some n, p⟩ []
          ⟨times, some n, s.addJourney p (s.journeyFrom id a duration)⟩ := .journey ⟨a, ha⟩
      refine hturn.turns.trans (ih ?_)
      rw [table_addJourney]
      exact ha

/-- Trips on board were caught at arrivals of the round before. -/
def IsAboard (t : StopTable) (n : Nat) (b : Boarding) : Prop :=
  ∃ a, t.arrivals[b.previous]? = some a ∧ a.round + 1 = n

theorem IsAboard.of_extends {t t' : StopTable} (ht : t.Extends t') {b : Boarding}
    (hb : IsAboard t n b) : IsAboard t' n b := by
  obtain ⟨a, ha, hround⟩ := hb
  exact ⟨a, ht.arrivals ha, hround⟩

theorem turns_alight (hp : s.Tidy p) {v : PatternView} {position stop : Nat} {b : Boarding}
    (hb : IsAboard p.table n b) (h : s.alight v n position stop p b = .ok p') :
    (s.Tidy p' ∧ p.table.Extends p'.table) ∧
      Turns s ⟨times, some n, p⟩ [p'.table] ⟨times, some n, p'⟩ := by
  obtain ⟨a, ha, hround⟩ := hb
  obtain ⟨htidy, hext, -⟩ := alight_shows hp ⟨a, ha, rfl⟩ h
  refine ⟨⟨htidy, hext⟩, ?_⟩
  unfold alight at h
  simp only [Fallible.bind_eq_ok] at h
  obtain ⟨trip, -, call, -, h⟩ := h
  split at h
  case isFalse =>
    rw [Fallible.pure_eq_ok] at h
    subst h
    exact (Turn.again times n p).turns
  case isTrue =>
    simp only [Fallible.bind_eq_ok] at h
    obtain ⟨boardCall, -, ⟨p₁, result⟩, hadd, h⟩ := h
    have hlt : b.previous < p.table.numAccepted := (Array.getElem?_eq_some_iff.mp ha).1
    have hfollows : p.table.Follows p.table.numAccepted
        (s.alightArrival v n position stop p.table.iteration b boardCall call) :=
      ⟨b.previous, a, rfl, hlt, ha, hround⟩
    have hturn : Turn s ⟨times, some n, p⟩ [p₁.table] ⟨times, some n, p₁⟩ :=
      .arrival hfollows rfl hadd
    obtain ⟨-, -, ⟨rfl, -⟩ | ⟨id, rfl, -, -, hid⟩⟩ := addArrival_shows hp hfollows.supports rfl hadd
    · rw [Fallible.pure_eq_ok] at h
      subst h
      exact hturn.turns
    · rw [Fallible.pure_eq_ok] at h
      subst h
      rw [table_reachDestination]
      exact hturn.turns.trans (turns_reachDestination times hid)

theorem exists_label_of_boardAll {v : PatternView} {round position : Nat} {labels : List Label}
    {caught : List Boarding} (h : s.boardAll v round position labels = .ok caught) :
    ∀ b ∈ caught, ∃ l ∈ labels, b.previous = l.id := by
  induction labels generalizing caught with
  | nil =>
      simp only [boardAll, Except.ok.injEq] at h
      subst h
      exact fun b hb => absurd hb (List.not_mem_nil)
  | cons l ls ih =>
      simp only [boardAll, Fallible.bind_eq_ok, Fallible.pure_eq_ok] at h
      obtain ⟨boarding, hl, rest, hrest, rfl⟩ := h
      intro b hb
      rcases List.mem_append.mp hb with hb | hb
      · rw [Option.mem_toList.mp hb] at hl
        exact ⟨l, List.mem_cons_self .., previous_of_board hl⟩
      · obtain ⟨l', hl', hprevious⟩ := ih hrest b hb
        exact ⟨l', List.mem_cons_of_mem _ hl', hprevious⟩

theorem listed_newLabelsAt (hp : s.Tidy p) {round stop : Nat} {labels : List Label}
    (h : p.table.newLabelsAt round stop = .ok labels) :
    ∀ l ∈ labels, p.table.arrivals[l.id]? = some l.arrival ∧ l.arrival.round = round := by
  obtain ⟨all, hl, rfl⟩ := StopTable.newLabelsAt_eq_ok h
  intro l hmem
  obtain ⟨hid, hround, -⟩ := hp.table.listed hl l (List.mem_of_mem_filter hmem)
  exact ⟨hid, hround⟩

theorem turns_scanStop (hp : s.Tidy p) {v : PatternView} {entry : Nat × Nat}
    {onboard onboard' : List Boarding} (hb : ∀ b ∈ onboard, IsAboard p.table (n + 1) b)
    (h : s.scanStop v (n + 1) (p, onboard) entry = .ok (p', onboard')) :
    (s.Tidy p' ∧ ∀ b ∈ onboard', IsAboard p'.table (n + 1) b) ∧
      Turns s ⟨times, some (n + 1), p⟩ (s.stopTables v (n + 1) (p, onboard) entry)
        ⟨times, some (n + 1), p'⟩ := by
  obtain ⟨stop, position⟩ := entry
  unfold scanStop at h
  unfold stopTables
  simp only at h ⊢
  split at h
  case isFalse hno =>
    simp only [Except.ok.injEq, Prod.mk.injEq] at h
    obtain ⟨rfl, rfl⟩ := h
    rw [if_neg hno]
    exact ⟨⟨hp, hb⟩, .stay _⟩
  case isTrue hyes =>
    simp only [Fallible.bind_eq_ok, Fallible.pure_eq_ok, Prod.mk.injEq] at h
    obtain ⟨p₁, halight, labels, hlabels, caught, hboard, rfl, rfl⟩ := h
    rw [if_pos hyes]
    have hleft : (s.Tidy p₁ ∧ p.table.Extends p₁.table) ∧ Turns s ⟨times, some (n + 1), p⟩
        (tablesAlong (s.alight v (n + 1) position stop) p onboard) ⟨times, some (n + 1), p₁⟩ := by
      refine Turns.tablesAlong (I := fun q => s.Tidy q ∧ p.table.Extends q.table)
        (fun b hmem q q' hq hstep => ?_) ⟨hp, .refl _⟩ halight
      obtain ⟨⟨htidy, hext⟩, hturns⟩ := turns_alight times hq.1 ((hb b hmem).of_extends hq.2) hstep
      exact ⟨⟨htidy, hq.2.trans hext⟩, hturns⟩
    obtain ⟨⟨htidy, hext⟩, hturns⟩ := hleft
    refine ⟨⟨htidy, fun b hmem => ?_⟩, hturns⟩
    rcases List.mem_append.mp hmem with hmem | hmem
    · exact (hb b hmem).of_extends hext
    · obtain ⟨l, hl, hprevious⟩ := exists_label_of_boardAll hboard b hmem
      obtain ⟨hid, hround⟩ := listed_newLabelsAt htidy hlabels l hl
      exact ⟨l.arrival, hprevious ▸ hid, congrArg (· + 1) hround⟩

theorem turns_scanPattern (hp : s.Tidy p) {pattern : Nat}
    (h : s.scanPattern (n + 1) p pattern = .ok p') :
    s.Tidy p' ∧ Turns s ⟨times, some (n + 1), p⟩ (s.patternTables (n + 1) p pattern)
      ⟨times, some (n + 1), p'⟩ := by
  unfold scanPattern at h
  simp only [Fallible.bind_eq_ok] at h
  obtain ⟨v, hv, h⟩ := h
  unfold patternTables
  rw [hv]
  dsimp only [onward]
  split at h
  case isTrue hnone =>
    rw [Fallible.pure_eq_ok] at h
    subst h
    rw [if_pos hnone]
    exact ⟨hp, .stay _⟩
  case isFalse hsome =>
    simp only [Fallible.bind_eq_ok, Fallible.pure_eq_ok] at h
    obtain ⟨⟨p₁, onboard⟩, hscan, rfl⟩ := h
    rw [if_neg hsome]
    refine And.imp_left And.left (Turns.along Prod.fst
      (I := fun state => s.Tidy state.1 ∧ ∀ b ∈ state.2, IsAboard state.1.table (n + 1) b)
      (fun entry _ state state' hstate hstep => ?_) ⟨hp, fun b hb => ?_⟩ hscan)
    · exact turns_scanStop times hstate.1 hstate.2 hstep
    · exact absurd hb (List.not_mem_nil)

theorem turns_transitPhase (hp : s.Tidy p) (h : s.transitPhase (n + 1) p = .ok p') :
    s.Tidy p' ∧ Turns s ⟨times, some (n + 1), p⟩ (s.transitTables (n + 1) p)
      ⟨times, some (n + 1), p'⟩ := by
  simp only [transitPhase, Fallible.bind_eq_ok] at h
  obtain ⟨patterns, hpatterns, h⟩ := h
  unfold transitTables
  rw [hpatterns]
  exact Turns.along id (I := s.Tidy)
    (fun pattern _ q q' hq hstep => turns_scanPattern times hq hstep) hp h

/-- Walks follow arrivals of the current iteration and round. -/
theorem turns_walkFrom (hp : s.Tidy p) {id : Nat} {a : StopArrival}
    (ha : p.table.arrivals[id]? = some a) (hround : a.round = n)
    (hnow : a.iteration = p.table.iteration) (h : s.walkFrom p id = .ok p') :
    (s.Tidy p' ∧ p.table.Extends p'.table) ∧
      Turns s ⟨times, some n, p⟩ (s.walkTables p id) ⟨times, some n, p'⟩ := by
  unfold walkFrom at h
  unfold walkTables
  split at h
  case isFalse hno =>
    rw [Except.ok.injEq] at h
    subst h
    rw [if_neg hno]
    exact ⟨⟨hp, .refl _⟩, .stay _⟩
  case isTrue hyes =>
    simp only [Fallible.bind_eq_ok] at h
    obtain ⟨b, hb, h⟩ := h
    rw [if_pos hyes, hb]
    dsimp only [onward]
    rw [StopTable.arrival_eq_ok_iff, ha, Option.some_inj] at hb
    subst hb
    split at h
    case isFalse hno =>
      rw [Fallible.pure_eq_ok] at h
      subst h
      rw [if_neg hno]
      exact ⟨⟨hp, .refl _⟩, .stay _⟩
    case isTrue hride =>
      rw [if_pos hride]
      refine turns_addAll times hp
        (fun w _ q _ hext => ⟨?_, hnow.trans hext.iteration.symm, hround⟩) h
      have hid := hext.arrivals ha
      exact ⟨id, a, rfl, (Array.getElem?_eq_some_iff.mp hid).1, hid, rfl, hride⟩

theorem turns_transferPhase (hp : s.Tidy p) (h : s.transferPhase n p = .ok p') :
    s.Tidy p' ∧ Turns s ⟨times, some n, p⟩ (s.transferTables n p) ⟨times, some n, p'⟩ := by
  unfold transferPhase at h
  refine And.imp_left And.left (Turns.along id
    (I := fun q => s.Tidy q ∧ p.table.Extends q.table) (fun id hid q q' hq hstep => ?_)
    ⟨hp, .refl _⟩ h)
  obtain ⟨a, ha, hround, hnow⟩ := hp.table.touched hid
  obtain ⟨⟨htidy, hext⟩, hturns⟩ := turns_walkFrom times hq.1 (hq.2.arrivals ha) hround
    (hnow.trans hq.2.iteration.symm) hstep
  exact ⟨⟨htidy, hq.2.trans hext⟩, hturns⟩

end Steps

section Run

variable {s : Search} {p p' : Progress} (times : List Time) {n : Nat}

theorem turns_playRound (hp : s.Tidy p) (h : s.playRound (n + 1) p = .ok p') :
    s.Tidy p' ∧ Turns s ⟨times, some n, p⟩ (s.roundTables (n + 1) p) ⟨times, some (n + 1), p'⟩ := by
  simp only [playRound, Fallible.bind_eq_ok, Fallible.pure_eq_ok] at h
  obtain ⟨p₁, htransit, p₂, htransfer, rfl⟩ := h
  obtain ⟨htidy, hrides⟩ := turns_transitPhase times hp htransit
  obtain ⟨htidy', hwalks⟩ := turns_transferPhase times htidy htransfer
  have hcount : Turn s ⟨times, some (n + 1), p₂⟩ [] ⟨times, some (n + 1), _⟩ :=
    .count (max p₂.highestRound (n + 1)) p₂.checks
  unfold roundTables
  rw [htransit]
  refine ⟨⟨htidy'.table, htidy'.destination⟩, ?_⟩
  have hturns := (Turn.next times n p).turns.trans (hrides.trans (hwalks.trans hcount.turns))
  rwa [List.append_nil] at hturns

theorem turns_playRounds {count : Nat} {status : Option SearchStatus} (hp : s.Tidy p)
    (h : s.playRounds count (n + 1) p = .ok (status, p')) :
    s.Tidy p' ∧ status ≠ some .complete ∧ ∃ m,
      Turns s ⟨times, some n, p⟩ (s.roundsTables count (n + 1) p) ⟨times, some m, p'⟩ := by
  induction count generalizing p n with
  | zero =>
      simp only [playRounds, Except.ok.injEq, Prod.mk.injEq] at h
      obtain ⟨rfl, rfl⟩ := h
      exact ⟨hp, by simp, n, .stay _⟩
  | succ count ih =>
      unfold playRounds at h
      unfold roundsTables
      split at h
      case isTrue hempty =>
        simp only [Except.ok.injEq, Prod.mk.injEq] at h
        obtain ⟨rfl, rfl⟩ := h
        rw [if_pos hempty]
        exact ⟨hp, by simp, n, .stay _⟩
      case isFalse hsome =>
        rw [if_neg hsome]
        have hasked : Turn s ⟨times, some n, p⟩ []
            ⟨times, some n, { p with checks := p.checks + 1 }⟩ :=
          .count p.highestRound (p.checks + 1)
        unfold ask at h ⊢
        cases hverdict : s.supervisor.verdict s.timeout p.checks p.arrivalReports with
        | some reason =>
            simp only [hverdict, Except.ok.injEq, Prod.mk.injEq] at h ⊢
            obtain ⟨rfl, rfl⟩ := h
            exact ⟨⟨hp.table, hp.destination⟩, hverdict ▸ verdict_ne_complete _ _ _ _, n,
              hasked.turns⟩
        | none =>
            simp only [hverdict, Fallible.bind_eq_ok] at h ⊢
            obtain ⟨p₁, hround, h⟩ := h
            obtain ⟨htidy, hturns⟩ := turns_playRound times
              (p := { p with checks := p.checks + 1 }) ⟨hp.table, hp.destination⟩ hround
            obtain ⟨htidy', hstatus, m, hrest⟩ := ih htidy h
            rw [hround]
            exact ⟨htidy', hstatus, m, hasked.turns.trans (hturns.trans hrest)⟩

theorem turns_iterations (round? : Option Nat) {status : SearchStatus} (hp : s.Tidy p)
    (h : s.iterations times p = .ok (status, p')) :
    ∃ rest last?, Turns s ⟨times, round?, p⟩ (s.iterationsTables times p) ⟨rest, last?, p'⟩
      ∧ (status = .complete → rest = []) := by
  induction times generalizing p round? with
  | nil =>
      simp only [iterations, Except.ok.injEq, Prod.mk.injEq] at h
      obtain ⟨-, rfl⟩ := h
      exact ⟨[], round?, .stay _, fun _ => rfl⟩
  | cons time times ih =>
      have hasked : Turn s ⟨time :: times, round?, p⟩ []
          ⟨time :: times, round?, { p with checks := p.checks + 1 }⟩ :=
        .count p.highestRound (p.checks + 1)
      unfold iterations ask at h
      unfold iterationsTables ask
      cases hverdict : s.supervisor.verdict s.timeout p.checks p.arrivalReports with
      | some reason =>
          simp only [hverdict, Except.ok.injEq, Prod.mk.injEq] at h ⊢
          obtain ⟨rfl, rfl⟩ := h
          exact ⟨_, round?, hasked.turns, fun hcomplete =>
            absurd (hcomplete ▸ hverdict) (verdict_ne_complete _ _ _ _)⟩
      | none =>
          simp only [hverdict, Fallible.bind_eq_ok] at h ⊢
          obtain ⟨p₁, hseed, ⟨stopped, p₂⟩, hrounds, h⟩ := h
          have hbegin : s.Tidy (begin { p with checks := p.checks + 1 } time) :=
            ⟨StopTable.tidy_startIteration hp.table, hp.destination⟩
          obtain ⟨htidy, hseeds⟩ := turns_seed times hbegin hseed
          obtain ⟨htidy', hstatus, m, hplayed⟩ := turns_playRounds times htidy hrounds
          have hbegun := hasked.turns.trans
            ((Turn.begin time times round? { p with checks := p.checks + 1 }).turns.trans
              (hseeds.trans hplayed))
          rw [hseed]
          dsimp only [onward]
          rw [hrounds]
          cases stopped with
          | some reason =>
              simp only [Fallible.pure_eq_ok, Prod.mk.injEq] at h
              obtain ⟨rfl, rfl⟩ := h
              refine ⟨times, some m, ?_, fun hcomplete => absurd (congrArg some hcomplete) hstatus⟩
              dsimp only
              rwa [List.append_nil]
          | none =>
              obtain ⟨rest, last?, hrest, hcomplete⟩ := ih (some m) htidy' h
              refine ⟨rest, last?, ?_, hcomplete⟩
              simpa only [List.nil_append, List.singleton_append, List.append_assoc,
                List.cons_append] using hbegun.trans hrest

/-- A search is made of turns, and passes through its tables in their order; if it is complete
no iteration is left. -/
theorem turns_run {status : SearchStatus} (h : s.run = .ok (status, p)) :
    ∃ rest last?, Turns s ⟨s.times, none, s.start⟩ (s.iterationsTables s.times s.start)
      ⟨rest, last?, p⟩ ∧ (status = .complete → rest = []) :=
  turns_iterations s.times none ⟨StopTable.tidy_empty .., by simp [start]⟩ h

end Run

end Search
end JourneyPlanner
