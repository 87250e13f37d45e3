import JourneyPlanner.Proofs.Legs

/-!
What the arrivals on the way to a destination tell of a journey: street legs, rides and
walks in the order of time. An itinerary depends on nothing else of a search but the data
that legs are made from, and not on the direction in which the journey was found.
-/

namespace JourneyPlanner

/-- A ride or a walk as arrivals tell it. -/
inductive Move where
  | ride (pattern trip fromStop boardPosition toStop alightPosition : Nat)
  | walk (fromStop toStop : Nat) (duration : Time)
  deriving DecidableEq

/-- The street legs of a journey and what lies between them. -/
structure Account where
  access : Option StreetLeg
  moves : List (Option Move)
  egress : Option StreetLeg
  deriving DecidableEq

namespace StopArrival

def streetLeg? (a : StopArrival) : Option StreetLeg :=
  match a.kind with
  | .access duration => some ⟨a.stop, duration⟩
  | _ => none

/-- How one comes to an arrival from the one before it. -/
def forwardMove? (previous a : StopArrival) : Option Move :=
  match a.kind with
  | .transit pattern trip board position =>
    some (.ride pattern trip previous.stop board a.stop position)
  | .transfer fromStop duration => some (.walk fromStop a.stop duration)
  | .access _ => none

/-- How one goes on from an arrival of a search in reverse. -/
def reverseMove? (a next : StopArrival) : Option Move :=
  match a.kind with
  | .transit pattern trip alight position =>
    some (.ride pattern trip a.stop position next.stop alight)
  | .transfer fromStop duration => some (.walk a.stop fromStop duration)
  | .access _ => none

end StopArrival

def Journey.account (j : Journey) : Direction → Account
  | .forward =>
    { access := j.arrivals.getLast?.bind StopArrival.streetLeg?
      moves := List.zipWith StopArrival.forwardMove? j.arrivals.reverse j.arrivals.reverse.tail
      egress := some ⟨j.ending.stop, j.ending.streetDuration⟩ }
  | .reverse =>
    { access := some ⟨j.ending.stop, j.ending.streetDuration⟩
      moves := List.zipWith StopArrival.reverseMove? j.arrivals j.arrivals.tail
      egress := j.arrivals.getLast?.bind StopArrival.streetLeg? }

namespace Search

/-- What a search tells of a journey that it retained. -/
def account (s : Search) (t : StopTable) (d : DestinationArrival) : Account :=
  (t.journeyOf d).account s.heading.direction

/-- The hop that a move stands for. -/
def hop? (s : Search) : Move → Option Hop
  | .ride pattern trip fromStop board toStop alight => do
    let v ← (s.view pattern).toOption
    let d ← (v.tripAt trip).toOption
    return .ride pattern d fromStop board toStop alight
  | .walk fromStop toStop duration => some (.walk fromStop toStop duration)

/-- What legs are made from is the same for both searches. -/
structure SharesData (s s' : Search) : Prop where
  views : s'.views = s.views
  timetable : s'.timetable = s.timetable
  rates : s'.rates = s.rates
  boardSlack : s'.heading.boardSlack = s.heading.boardSlack
  sums : s'.heading.sums = s.heading.sums

variable {s s' : Search} {t t' : StopTable} {d d' : DestinationArrival}

section Shared

theorem hop?_of_sharesData (h : s.SharesData s') : s'.hop? = s.hop? := by
  funext m
  cases m <;> simp only [hop?, view, h.views]

theorem keep_of_sharesData (h : s.SharesData s') : s'.heading.keep = s.heading.keep := by
  funext sum
  simp only [Heading.keep, h.sums]

theorem legsAlong_of_sharesData (h : s.SharesData s') (who : Traveller) (hops : List Hop) :
    s'.legsAlong who hops = s.legsAlong who hops := by
  induction hops generalizing who with
  | nil => rfl
  | cons hop hops ih =>
      cases hop with
      | ride pattern trip fromStop board toStop alight =>
          simp only [legsAlong, rideLeg, h.timetable, h.rates, h.boardSlack, keep_of_sharesData h, ih]
      | walk fromStop toStop duration => simp only [legsAlong, h.rates, keep_of_sharesData h, ih]

theorem legsOf_of_sharesData (h : s.SharesData s') (r : Route) : s'.legsOf r = s.legsOf r := by
  simp only [legsOf, legsAlong_of_sharesData h, h.rates, h.boardSlack, keep_of_sharesData h]

end Shared

section Moves

theorem hop?_of_forwardHop {previous a : StopArrival} {hop : Hop}
    (h : s.forwardHop previous a = .ok hop) : (previous.forwardMove? a).bind s.hop? = some hop := by
  unfold forwardHop at h
  unfold StopArrival.forwardMove?
  cases hk : a.kind with
  | access duration => simp [hk] at h
  | transfer fromStop duration =>
      simp only [hk, Except.ok.injEq] at h
      simpa [hop?] using h
  | transit pattern trip board position =>
      simp only [hk, Fallible.bind_eq_ok] at h
      obtain ⟨v, hv, d, htrip, h⟩ := h
      split at h
      case isFalse => simp at h
      case isTrue =>
        obtain ⟨call, -, h⟩ := Fallible.bind_eq_ok.mp h
        split at h
        case isFalse => simp at h
        case isTrue =>
          rw [Fallible.pure_eq_ok] at h
          simp [hop?, hv, htrip, Except.toOption, h]

theorem hop?_of_reverseHop {a next : StopArrival} {hop : Hop}
    (h : s.reverseHop a next = .ok hop) : (a.reverseMove? next).bind s.hop? = some hop := by
  unfold reverseHop at h
  unfold StopArrival.reverseMove?
  cases hk : a.kind with
  | access duration => simp [hk] at h
  | transfer fromStop duration =>
      simp only [hk, Except.ok.injEq] at h
      simpa [hop?] using h
  | transit pattern trip alight position =>
      simp only [hk, Fallible.bind_eq_ok] at h
      obtain ⟨v, hv, d, htrip, h⟩ := h
      split at h
      case isFalse => simp at h
      case isTrue =>
        obtain ⟨call, -, h⟩ := Fallible.bind_eq_ok.mp h
        split at h
        case isFalse => simp at h
        case isTrue =>
          rw [Fallible.pure_eq_ok] at h
          simp [hop?, hv, htrip, Except.toOption, h]

/-- Hops are those that the moves between arrivals stand for. -/
theorem hops_of_moves {hop : StopArrival → StopArrival → Except InternalFault Hop}
    {move : StopArrival → StopArrival → Option Move}
    (hmove : ∀ {x y h}, hop x y = .ok h → (move x y).bind s.hop? = some h)
    {xs : List StopArrival} {hops : List Hop} (h : hopsBetween hop xs = .ok hops) :
    (List.zipWith move xs xs.tail).map (fun m => m.bind s.hop?) = hops.map some := by
  induction xs generalizing hops with
  | nil =>
      obtain rfl : [] = hops := Except.ok.inj h
      rfl
  | cons x xs ih =>
      cases xs with
      | nil =>
          obtain rfl : [] = hops := Except.ok.inj h
          rfl
      | cons y xs =>
          simp only [hopsBetween, Fallible.bind_eq_ok, Fallible.pure_eq_ok] at h
          obtain ⟨first, hfirst, others, hothers, rfl⟩ := h
          have hrest := ih hothers
          simp only [List.tail_cons] at hrest
          simp only [List.tail_cons, List.zipWith_cons_cons, List.map_cons, hmove hfirst, hrest]

end Moves

theorem wayTo_eq_ok {arrivals : List StopArrival} {leg : StreetLeg}
    (h : wayTo t d = .ok (arrivals, leg)) :
    arrivals.map StopArrival.unlinked = (t.journeyOf d).arrivals
      ∧ (t.journeyOf d).arrivals.getLast?.bind StopArrival.streetLeg? = some leg := by
  simp only [wayTo, Fallible.bind_eq_ok] at h
  obtain ⟨found, hchain, h⟩ := h
  have harrivals : (t.journeyOf d).arrivals = found.map StopArrival.unlinked := by
    simp only [StopTable.journeyOf, StopTable.arrivalsTo, hchain, Except.toOption, Option.getD_some]
  split at h
  case h_1 => simp at h
  case h_2 first hfirst =>
    split at h
    case h_1 duration hkind =>
      split at h
      case isTrue =>
        simp only [Fallible.pure_eq_ok, Prod.mk.injEq] at h
        obtain ⟨rfl, rfl⟩ := h
        refine ⟨harrivals.symm, ?_⟩
        rw [harrivals, List.getLast?_map, hfirst]
        simp [StopArrival.streetLeg?, StopArrival.unlinked, hkind]
      case isFalse => simp at h
    case h_2 => simp at h

/-- The route to a destination is what the search tells of it. -/
theorem account_of_routeTo {r : Route} (h : s.routeTo t d = .ok r) :
    (s.account t d).access = some r.access ∧ (s.account t d).egress = some r.egress
      ∧ (s.account t d).moves.map (fun m => m.bind s.hop?) = r.hops.map some := by
  simp only [routeTo, Fallible.bind_eq_ok] at h
  obtain ⟨⟨arrivals, leg⟩, hway, h⟩ := h
  obtain ⟨harrivals, hleg⟩ := wayTo_eq_ok hway
  cases hd : s.heading.direction with
  | forward =>
      simp only [hd, Fallible.bind_eq_ok, Fallible.pure_eq_ok] at h
      obtain ⟨hops, hhops, rfl⟩ := h
      rw [← hopsBetween_unlinked (forwardHop_unlinked s), List.map_reverse, harrivals] at hhops
      simp only [account, hd, Journey.account, hleg, hops_of_moves hop?_of_forwardHop hhops]
      exact ⟨trivial, rfl, trivial⟩
  | reverse =>
      simp only [hd, Fallible.bind_eq_ok, Fallible.pure_eq_ok] at h
      obtain ⟨hops, hhops, rfl⟩ := h
      rw [← hopsBetween_unlinked (reverseHop_unlinked s), harrivals] at hhops
      simp only [account, hd, Journey.account, hleg, hops_of_moves hop?_of_reverseHop hhops]
      exact ⟨rfl, trivial, trivial⟩

/-- Searches that share their data have the same route where they tell the same. -/
theorem routeTo_of_account (hs : s.SharesData s') (ha : s'.account t' d' = s.account t d)
    {r r' : Route} (h : s.routeTo t d = .ok r) (h' : s'.routeTo t' d' = .ok r') : r' = r := by
  obtain ⟨haccess, hegress, hmoves⟩ := account_of_routeTo h
  obtain ⟨haccess', hegress', hmoves'⟩ := account_of_routeTo h'
  rw [ha, haccess, Option.some_inj] at haccess'
  rw [ha, hegress, Option.some_inj] at hegress'
  rw [ha, hop?_of_sharesData hs, hmoves] at hmoves'
  have hhops : r.hops = r'.hops :=
    List.map_injective_iff.mpr (fun _ _ => Option.some.inj) hmoves'
  cases r
  cases r'
  simp_all

theorem itinerary_of_account (hs : s.SharesData s') (ha : s'.account t' d' = s.account t d)
    {it it' : Itinerary} (h : s.itinerary t d = .ok it) (h' : s'.itinerary t' d' = .ok it') :
    it' = it := by
  simp only [itinerary, Fallible.bind_eq_ok, Fallible.pure_eq_ok] at h h'
  obtain ⟨r, hr, legs, hlegs, rfl⟩ := h
  obtain ⟨r', hr', legs', hlegs', rfl⟩ := h'
  rw [routeTo_of_account hs ha hr hr', legsOf_of_sharesData hs, hlegs, Except.ok.injEq] at hlegs'
  rw [hlegs']

/-- Searches in the same direction that share their data have the same itineraries for the
same journeys. -/
theorem itineraries_of_journeyOf (hs : s.SharesData s')
    (hd : s'.heading.direction = s.heading.direction) {ds ds' : List DestinationArrival}
    (hj : ds.map t.journeyOf = ds'.map t'.journeyOf) {its its' : List Itinerary}
    (h : ds.mapM (s.itinerary t) = .ok its) (h' : ds'.mapM (s'.itinerary t') = .ok its') :
    its' = its := by
  induction ds generalizing ds' its its' with
  | nil =>
      obtain rfl : ds' = [] := by simpa using hj.symm
      exact Except.ok.inj (h'.symm.trans h)
  | cons d ds ih =>
      cases ds' with
      | nil => simp at hj
      | cons d' ds' =>
          rw [List.map_cons, List.map_cons, List.cons.injEq] at hj
          obtain ⟨it, rest, hit, hrest, rfl⟩ := Fallible.mapM_cons_eq_ok.mp h
          obtain ⟨it', rest', hit', hrest', rfl⟩ := Fallible.mapM_cons_eq_ok.mp h'
          have ha : s'.account t' d' = s.account t d := by
            rw [account, account, hj.1, hd]
          rw [itinerary_of_account hs ha hit hit', ih hj.2 hrest hrest']

end Search
end JourneyPlanner
