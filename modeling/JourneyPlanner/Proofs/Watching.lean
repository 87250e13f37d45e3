import JourneyPlanner.Proofs.Pauses
import JourneyPlanner.Proofs.Telling

/-!
Two people who watch the same search. Whatever relates what the search holds under the one
and under the other, and is kept by every decision, relates the ends of both searches.
-/

namespace JourneyPlanner
namespace Search

/-- A relation between the progress of a search and that of the same search watched by
somebody else, which decisions and everything that a search does between them keep. -/
structure Mirrors (s : Search) (watch : Option Watch) (R : Progress → Progress → Prop) : Prop where
  agrees : ∀ {p q : Progress}, R p q → p.Agrees q
  tidy : ∀ {p q : Progress}, R p q → s.Tidy p
  verdict : ∀ {p q : Progress}, R p q → (s.watchedBy watch).verdict? q = s.verdict? p
  asked : ∀ {p q : Progress}, R p q → R p.asked q.asked
  begin : ∀ {p q : Progress} (time : Time), R p q → R (Search.begin p time) (Search.begin q time)
  ended : ∀ {p q : Progress} (round : Nat), R p q →
    R { p with highestRound := max p.highestRound round }
      { q with highestRound := max q.highestRound round }
  arrival : ∀ {p q : Progress} {a : StopArrival} {t : StopTable} {result : Option Nat}
    {es : List Event}, R p q → p.table.Supports a → a.iteration = p.table.iteration →
      s.Judges p a t result es →
      R (es.foldl s.tell { p with table := t })
        (es.foldl (s.watchedBy watch).tell { q with table := t })
  journey : ∀ {p q : Progress} {d : DestinationArrival} {front : List DestinationArrival}
    {es : List Event}, R p q → (∃ a, p.table.arrivals[d.previous]? = some a) →
      s.Weighs p d front es →
      R (es.foldl s.tell { p with destination := front })
        (es.foldl (s.watchedBy watch).tell { q with destination := front })

theorem boardAll_watchedBy (s : Search) (watch : Option Watch) :
    (s.watchedBy watch).boardAll = s.boardAll :=
  s.boardAll_overseen watch s.supervisor s.timeout

/-- Two scans that have come to related progress and have caught the same trips. -/
structure ScanAlike (R : Progress → Progress → Prop) (x y : Progress × List Boarding) : Prop where
  progress : R x.1 y.1
  onboard : y.2 = x.2
  aboard : ∃ caught, List.Forall₂ (Aboard x.1.table) x.2 caught

namespace Mirrors

variable {s : Search} {watch : Option Watch} {R : Progress → Progress → Prop} {p q p' : Progress}
  {round : Nat}

section Steps

theorem addArrival (h : s.Mirrors watch R) (hR : R p q) {a : StopArrival}
    (ha : p.table.Supports a) (hnow : a.iteration = p.table.iteration) {result : Option Nat}
    (hadd : s.addArrival p a = .ok (p', result)) :
    ∃ q', (s.watchedBy watch).addArrival q a = .ok (q', result) ∧ R p' q' := by
  obtain ⟨t, es, hjudges, rfl⟩ := addArrival_eq_ok.mp hadd
  exact ⟨_, addArrival_eq_ok.mpr ⟨t, es, hjudges.watchedBy watch (h.agrees hR), rfl⟩,
    h.arrival hR ha hnow hjudges⟩

theorem addJourney (h : s.Mirrors watch R) (hR : R p q) {d : DestinationArrival}
    (hd : ∃ a, p.table.arrivals[d.previous]? = some a) :
    R (s.addJourney p d) ((s.watchedBy watch).addJourney q d) := by
  obtain ⟨front, es, hweighs⟩ := s.exists_weighs p d
  rw [hweighs.addJourney, (hweighs.watchedBy watch (h.agrees hR)).addJourney]
  exact h.journey hR hd hweighs

theorem reachDestination (h : s.Mirrors watch R) (hR : R p q) {id : Nat} {a : StopArrival}
    (ha : p.table.arrivals[id]? = some a) :
    R (s.reachDestination p id a) ((s.watchedBy watch).reachDestination q id a) := by
  have hstep : ∀ duration ∈ s.targetDurations a.stop, ∀ p q : Progress,
      R p q ∧ p.table.arrivals[id]? = some a →
        R (s.addJourney p (s.journeyFrom id a duration))
            ((s.watchedBy watch).addJourney q (s.journeyFrom id a duration))
          ∧ (s.addJourney p (s.journeyFrom id a duration)).table.arrivals[id]? = some a := by
    rintro duration - p q ⟨hR, ha⟩
    have hknown := (addJourney_shows (h.tidy hR) (d := s.journeyFrom id a duration) ⟨a, ha⟩).2.1
    exact ⟨h.addJourney hR ⟨a, ha⟩, hknown ▸ ha⟩
  exact (foldl_both (R := fun p q => R p q ∧ p.table.arrivals[id]? = some a) _ hstep ⟨hR, ha⟩).1

/-- Arrivals of a list are added one after the other. -/
theorem addAll (h : s.Mirrors watch R) (hR : R p q) {α : Type} {xs : List α}
    {f : Progress → α → StopArrival}
    (hf : ∀ x ∈ xs, ∀ p' q', R p' q' → p.table.Extends p'.table → p'.table.Supports (f p' x)
      ∧ (f p' x).iteration = p'.table.iteration ∧ f q' x = f p' x)
    (hok : xs.foldlM (fun p x => (s.addArrival p (f p x)).map (·.1)) p = .ok p') :
    ∃ q', xs.foldlM (fun q x => ((s.watchedBy watch).addArrival q (f q x)).map (·.1)) q = .ok q'
      ∧ R p' q' := by
  have hboth := Fallible.foldlM_both
    (R := fun p' q' => R p' q' ∧ p.table.Extends p'.table)
    (g := fun q x => ((s.watchedBy watch).addArrival q (f q x)).map (·.1)) ?_ ⟨hR, .refl _⟩ hok
  · exact hboth.imp fun q' hq' => ⟨hq'.1, hq'.2.1⟩
  · rintro x hx p₁ q₁ p₂ ⟨hR₁, hext⟩ hstep
    obtain ⟨⟨_, result⟩, hadd, rfl⟩ := Fallible.map_eq_ok.mp hstep
    obtain ⟨hsupports, hnow, hsame⟩ := hf x hx p₁ q₁ hR₁ hext
    obtain ⟨q₂, hadd', hR₂⟩ := h.addArrival hR₁ hsupports hnow hadd
    obtain ⟨-, hext₂, -⟩ := addArrival_shows (h.tidy hR₁) hsupports hnow hadd
    rw [hsame]
    exact ⟨q₂, Fallible.map_eq_ok.mpr ⟨_, hadd', rfl⟩, hR₂, hext.trans hext₂⟩

end Steps

section Transit

variable {v : PatternView} {position stop : Nat}

/-- A trip that is left by the one search is left by the other. -/
theorem alight (h : s.Mirrors watch R) (hR : R p q) {b : Boarding} {e : Way × Boarding}
    (hb : Aboard p.table b e) (hok : s.alight v round position stop p b = .ok p') :
    ∃ q', (s.watchedBy watch).alight v round position stop q b = .ok q' ∧ R p' q' := by
  obtain ⟨a, ha, -⟩ := hb
  have htable := (h.agrees hR).table
  unfold Search.alight at hok ⊢
  simp only [Fallible.bind_eq_ok] at hok
  obtain ⟨trip, htrip, call, hcall, hok⟩ := hok
  have hstart : ∀ {f : DayTrip → Call → Except InternalFault Progress} {q' : Progress},
      f trip call = .ok q' → (v.tripAt b.trip >>= fun trip => trip.call position >>= f trip)
        = .ok q' :=
    fun hf => Fallible.bind_eq_ok.mpr ⟨trip, htrip, Fallible.bind_eq_ok.mpr ⟨call, hcall, hf⟩⟩
  split at hok
  case isFalse hno =>
    rw [Fallible.pure_eq_ok] at hok
    exact ⟨q, hstart (if_neg hno), hok ▸ hR⟩
  case isTrue hyes =>
    simp only [Fallible.bind_eq_ok] at hok
    obtain ⟨boardCall, hboard, ⟨p₁, result⟩, hadd, hok⟩ := hok
    have hsupports : p.table.Supports
        (s.alightArrival v round position stop p.table.iteration b boardCall call) :=
      StopTable.supports_of_previous rfl ha
    obtain ⟨q₁, hadd', hR₁⟩ := h.addArrival hR hsupports rfl hadd
    rw [← htable] at hadd'
    obtain ⟨-, -, ⟨rfl, -, -⟩ | ⟨id, rfl, -, -, hid⟩⟩ :=
      addArrival_shows (h.tidy hR) hsupports rfl hadd
    · rw [Fallible.pure_eq_ok] at hok
      subst hok
      refine ⟨q₁, hstart ((if_pos hyes).trans ?_), hR₁⟩
      exact Fallible.bind_eq_ok.mpr ⟨boardCall, hboard,
        Fallible.bind_eq_ok.mpr ⟨(q₁, none), hadd', rfl⟩⟩
    · rw [Fallible.pure_eq_ok] at hok
      subst hok
      refine ⟨_, hstart ((if_pos hyes).trans ?_), h.reachDestination hR₁ hid⟩
      refine Fallible.bind_eq_ok.mpr ⟨boardCall, hboard,
        Fallible.bind_eq_ok.mpr ⟨(q₁, some id), hadd', ?_⟩⟩
      rw [htable]
      rfl

theorem alightAll (h : s.Mirrors watch R) (hR : R p q) {t : StopTable} (ht : t.IsLinked)
    (hext : t.Extends p.table) {onboard : List Boarding} {caught : List (Way × Boarding)}
    (hb : List.Forall₂ (Aboard t) onboard caught)
    (hok : onboard.foldlM (s.alight v round position stop) p = .ok p') :
    ∃ q', onboard.foldlM ((s.watchedBy watch).alight v round position stop) q = .ok q'
      ∧ R p' q' := by
  induction hb generalizing p q with
  | nil =>
      rw [List.foldlM_nil, Fallible.pure_eq_ok] at hok
      exact ⟨q, rfl, hok ▸ hR⟩
  | cons hbe _ ih =>
      obtain ⟨p₁, hstep, hrest⟩ := Fallible.foldlM_cons_eq_ok.mp hok
      have hbe := hbe.of_extends ht hext
      obtain ⟨q₁, hstep', hR₁⟩ := h.alight hR hbe hstep
      obtain ⟨-, hext₁, -⟩ := alight_shows (h.tidy hR) hbe hstep
      obtain ⟨q', hrest', hR'⟩ := ih hR₁ (hext.trans hext₁) hrest
      exact ⟨q', Fallible.foldlM_cons_eq_ok.mpr ⟨q₁, hstep', hrest'⟩, hR'⟩

theorem scanStop (h : s.Mirrors watch R) (hR : R p q) {entry : Nat × Nat}
    {onboard onboard' : List Boarding} {caught : List (Way × Boarding)}
    (hb : List.Forall₂ (Aboard p.table) onboard caught)
    (hok : s.scanStop v round (p, onboard) entry = .ok (p', onboard')) :
    ∃ q', (s.watchedBy watch).scanStop v round (q, onboard) entry = .ok (q', onboard')
      ∧ R p' q' := by
  obtain ⟨stop, position⟩ := entry
  unfold Search.scanStop at hok ⊢
  simp only at hok ⊢
  split at hok
  case isFalse hno =>
    simp only [Except.ok.injEq, Prod.mk.injEq] at hok
    obtain ⟨rfl, rfl⟩ := hok
    exact ⟨q, if_neg hno, hR⟩
  case isTrue hyes =>
    simp only [Fallible.bind_eq_ok, Fallible.pure_eq_ok, Prod.mk.injEq] at hok
    obtain ⟨p₁, hleft, labels, hlabels, new, hboard, rfl, rfl⟩ := hok
    obtain ⟨q₁, hleft', hR₁⟩ := h.alightAll hR (h.tidy hR).table.linked (.refl _) hb hleft
    refine ⟨q₁, (if_pos hyes).trans ?_, hR₁⟩
    rw [boardAll_watchedBy]
    rw [← (h.agrees hR₁).table] at hlabels
    exact Fallible.bind_eq_ok.mpr ⟨q₁, hleft', Fallible.bind_eq_ok.mpr ⟨labels, hlabels,
      Fallible.bind_eq_ok.mpr ⟨new, hboard, rfl⟩⟩⟩

theorem scanPattern (h : s.Mirrors watch R) (hR : R p q) {pattern : Nat}
    (hok : s.scanPattern round p pattern = .ok p') :
    ∃ q', (s.watchedBy watch).scanPattern round q pattern = .ok q' ∧ R p' q' := by
  unfold Search.scanPattern at hok ⊢
  simp only [Fallible.bind_eq_ok] at hok
  obtain ⟨v, hv, hok⟩ := hok
  split at hok
  case isTrue hnone =>
    rw [Fallible.pure_eq_ok] at hok
    exact ⟨q, Fallible.bind_eq_ok.mpr ⟨v, hv, if_pos hnone⟩, hok ▸ hR⟩
  case isFalse hsome =>
    simp only [Fallible.bind_eq_ok, Fallible.pure_eq_ok] at hok
    obtain ⟨⟨p₁, onboard⟩, hscan, rfl⟩ := hok
    have hstart : ScanAlike R (p, []) (q, []) := ⟨hR, rfl, [], .nil⟩
    have hboth := Fallible.foldlM_both (R := ScanAlike R)
      (g := (s.watchedBy watch).scanStop v round) ?_ hstart hscan
    · obtain ⟨⟨q₁, onboard'⟩, hscan', hR₁, -⟩ := hboth
      refine ⟨q₁, Fallible.bind_eq_ok.mpr ⟨v, hv, (if_neg hsome).trans ?_⟩, hR₁⟩
      exact Fallible.bind_eq_ok.mpr ⟨_, hscan', rfl⟩
    · rintro entry - ⟨p₁, onboard⟩ ⟨q₁, _⟩ ⟨p₂, onboard₂⟩ ⟨hR₁, rfl, caught, hb⟩ hstep
      obtain ⟨q₂, hstep', hR₂⟩ := h.scanStop hR₁ hb hstep
      obtain ⟨-, -, caught₂, hb₂, -⟩ := scanStop_shows (h.tidy hR₁) hb hstep
      exact ⟨(q₂, onboard₂), hstep', hR₂, rfl, caught₂, hb₂⟩

theorem transitPhase (h : s.Mirrors watch R) (hR : R p q)
    (hok : s.transitPhase round p = .ok p') :
    ∃ q', (s.watchedBy watch).transitPhase round q = .ok q' ∧ R p' q' := by
  simp only [Search.transitPhase, Fallible.bind_eq_ok] at hok
  obtain ⟨patterns, hpatterns, hok⟩ := hok
  obtain ⟨q', hok', hR'⟩ := Fallible.foldlM_both (R := R)
    (g := (s.watchedBy watch).scanPattern round)
    (fun pattern _ _ _ _ hR hstep => h.scanPattern hR hstep) hR hok
  rw [← (h.agrees hR).table] at hpatterns
  exact ⟨q', Fallible.bind_eq_ok.mpr ⟨patterns, hpatterns, hok'⟩, hR'⟩

end Transit

section Rounds

theorem walkFrom (h : s.Mirrors watch R) (hR : R p q) {id : Nat} {a : StopArrival}
    (ha : p.table.arrivals[id]? = some a) (hnow : a.iteration = p.table.iteration)
    (hok : s.walkFrom p id = .ok p') :
    ∃ q', (s.watchedBy watch).walkFrom q id = .ok q' ∧ R p' q' := by
  have htable := (h.agrees hR).table
  unfold Search.walkFrom at hok ⊢
  rw [htable]
  split at hok
  case isFalse hno =>
    simp only [Except.ok.injEq] at hok
    exact ⟨q, if_neg hno, hok ▸ hR⟩
  case isTrue hyes =>
    simp only [Fallible.bind_eq_ok] at hok
    obtain ⟨b, hb, hok⟩ := hok
    have hsame := hb
    rw [StopTable.arrival_eq_ok_iff, ha, Option.some_inj] at hsame
    subst hsame
    rw [if_pos hyes]
    split at hok
    case isFalse hno =>
      rw [Fallible.pure_eq_ok] at hok
      exact ⟨q, Fallible.bind_eq_ok.mpr ⟨a, hb, if_neg hno⟩, hok ▸ hR⟩
    case isTrue hride =>
      obtain ⟨q', hok', hR'⟩ := h.addAll hR (f := fun _ k => s.walkArrival id a k)
        (fun k _ p' q' _ hext => ⟨StopTable.supports_of_previous rfl (hext.arrivals ha),
          hnow.trans hext.iteration.symm, rfl⟩)
        hok
      exact ⟨q', Fallible.bind_eq_ok.mpr ⟨a, hb, (if_pos hride).trans hok'⟩, hR'⟩

theorem transferPhase (h : s.Mirrors watch R) (hR : R p q)
    (hok : s.transferPhase round p = .ok p') :
    ∃ q', (s.watchedBy watch).transferPhase round q = .ok q' ∧ R p' q' := by
  unfold Search.transferPhase at hok ⊢
  rw [(h.agrees hR).table]
  have hboth := Fallible.foldlM_both
    (R := fun p' q' => R p' q' ∧ p.table.Extends p'.table)
    (g := (s.watchedBy watch).walkFrom) ?_ ⟨hR, .refl _⟩ hok
  · exact hboth.imp fun q' hq' => ⟨hq'.1, hq'.2.1⟩
  · rintro id hid p₁ q₁ p₂ ⟨hR₁, hext⟩ hstep
    obtain ⟨a, ha, -, hnow⟩ := (h.tidy hR).table.touched hid
    have hnow := hnow.trans hext.iteration.symm
    obtain ⟨q₂, hstep', hR₂⟩ := h.walkFrom hR₁ (hext.arrivals ha) hnow hstep
    obtain ⟨-, hext₂, -⟩ := walkFrom_shows (h.tidy hR₁) (hext.arrivals ha) hnow hstep
    exact ⟨q₂, hstep', hR₂, hext.trans hext₂⟩

theorem seed (h : s.Mirrors watch R) (hR : R p q) {time : Time} (hok : s.seed p time = .ok p') :
    ∃ q', (s.watchedBy watch).seed q time = .ok q' ∧ R p' q' := by
  refine h.addAll hR (f := fun p leg => s.originArrival time p.table.iteration leg) ?_ hok
  intro leg _ p' q' hR' _
  refine ⟨fun previous hprevious => by simp [originArrival] at hprevious, rfl, ?_⟩
  rw [(h.agrees hR').table]

theorem playRound (h : s.Mirrors watch R) (hR : R p q) (hok : s.playRound round p = .ok p') :
    ∃ q', (s.watchedBy watch).playRound round q = .ok q' ∧ R p' q' := by
  simp only [Search.playRound, Fallible.bind_eq_ok, Fallible.pure_eq_ok] at hok
  obtain ⟨p₁, htransit, p₂, hwalk, rfl⟩ := hok
  obtain ⟨q₁, htransit', hR₁⟩ := h.transitPhase hR htransit
  obtain ⟨q₂, hwalk', hR₂⟩ := h.transferPhase hR₁ hwalk
  exact ⟨_, Fallible.bind_eq_ok.mpr ⟨q₁, htransit', Fallible.bind_eq_ok.mpr ⟨q₂, hwalk', rfl⟩⟩,
    h.ended round hR₂⟩

theorem playRounds (h : s.Mirrors watch R) (hR : R p q) {count : Nat}
    {status : Option SearchStatus} (hok : s.playRounds count round p = .ok (status, p')) :
    ∃ q', (s.watchedBy watch).playRounds count round q = .ok (status, q') ∧ R p' q' := by
  induction count generalizing round p q with
  | zero =>
      obtain ⟨rfl, rfl⟩ := Prod.mk.inj (Except.ok.inj hok)
      exact ⟨q, rfl, hR⟩
  | succ count ih =>
      unfold Search.playRounds at hok ⊢
      rw [(h.agrees hR).table]
      split at hok
      case isTrue hnothing =>
        obtain ⟨rfl, rfl⟩ := Prod.mk.inj (Except.ok.inj hok)
        exact ⟨q, if_pos hnothing, hR⟩
      case isFalse hsome =>
        rw [if_neg hsome, ask_eq, h.verdict hR]
        rw [ask_eq] at hok
        cases hverdict : s.verdict? p with
        | some reason =>
            rw [hverdict] at hok
            obtain ⟨rfl, rfl⟩ := Prod.mk.inj (Except.ok.inj hok)
            exact ⟨_, rfl, h.asked hR⟩
        | none =>
            rw [hverdict] at hok
            obtain ⟨p₁, hround, hrest⟩ := Fallible.bind_eq_ok.mp hok
            obtain ⟨q₁, hround', hR₁⟩ := h.playRound (h.asked hR) hround
            obtain ⟨q', hrest', hR'⟩ := ih hR₁ hrest
            exact ⟨q', Fallible.bind_eq_ok.mpr ⟨q₁, hround', hrest'⟩, hR'⟩

theorem iterations (h : s.Mirrors watch R) (hR : R p q) {times : List Time}
    {status : SearchStatus} (hok : s.iterations times p = .ok (status, p')) :
    ∃ q', (s.watchedBy watch).iterations times q = .ok (status, q') ∧ R p' q' := by
  induction times generalizing p q with
  | nil =>
      obtain ⟨rfl, rfl⟩ := Prod.mk.inj (Except.ok.inj hok)
      exact ⟨q, rfl, hR⟩
  | cons time times ih =>
      rw [Search.iterations, ask_eq] at hok ⊢
      rw [h.verdict hR]
      cases hverdict : s.verdict? p with
      | some reason =>
          rw [hverdict] at hok
          obtain ⟨rfl, rfl⟩ := Prod.mk.inj (Except.ok.inj hok)
          exact ⟨_, rfl, h.asked hR⟩
      | none =>
          rw [hverdict] at hok
          obtain ⟨p₁, hseed, hok⟩ := Fallible.bind_eq_ok.mp hok
          obtain ⟨⟨stopped, p₂⟩, hrounds, hok⟩ := Fallible.bind_eq_ok.mp hok
          obtain ⟨q₁, hseed', hR₁⟩ := h.seed (h.begin time (h.asked hR)) hseed
          obtain ⟨q₂, hrounds', hR₂⟩ := h.playRounds hR₁ hrounds
          cases stopped with
          | some reason =>
              obtain ⟨rfl, rfl⟩ := Prod.mk.inj (Except.ok.inj hok)
              exact ⟨q₂, Fallible.bind_eq_ok.mpr ⟨q₁, hseed',
                Fallible.bind_eq_ok.mpr ⟨_, hrounds', rfl⟩⟩, hR₂⟩
          | none =>
              obtain ⟨q', hrest', hR'⟩ := ih hR₂ hok
              exact ⟨q', Fallible.bind_eq_ok.mpr ⟨q₁, hseed',
                Fallible.bind_eq_ok.mpr ⟨_, hrounds', hrest'⟩⟩, hR'⟩

/-- Searches that begin alike end alike, whoever watches them. -/
theorem run (h : s.Mirrors watch R) (hR : R s.start s.start) {status : SearchStatus}
    (hok : s.run = .ok (status, p')) :
    ∃ q', (s.watchedBy watch).run = .ok (status, q') ∧ R p' q' :=
  h.iterations hR hok

end Rounds

end Mirrors

end Search
end JourneyPlanner
