import JourneyPlanner.Proofs.Aligned

/-!
A fair search and a pruned one side by side. Both come to the same stops and go along
the same patterns; where one has a way that the other one has not, the way is pruned by
then, and so is everything that goes on from it. So both end with the same journeys.
-/

namespace JourneyPlanner

namespace Search

variable {s s' : Search}

theorem HasVariant.heading (h : s.HasVariant s') : s'.heading = s.heading := by
  obtain ⟨pruning, watch, supervisor, rfl⟩ := h.variant
  rfl

theorem HasVariant.filter (h : s.HasVariant s') : s'.filter = s.filter := by
  obtain ⟨pruning, watch, supervisor, rfl⟩ := h.variant
  rfl

theorem HasVariant.onward (h : s.HasVariant s') {a b : StopArrival} (hab : s.Onward a b) :
    s'.Onward a b := by
  obtain ⟨pruning, watch, supervisor, rfl⟩ := h.variant
  exact ⟨hab.originTime, hab.time, hab.round, hab.cost⟩

theorem HasVariant.left? (h : s.HasVariant s') : s'.left? = s.left? := by
  obtain ⟨pruning, watch, supervisor, rfl⟩ := h.variant
  rfl

theorem HasVariant.caught? (h : s.HasVariant s') : s'.caught? = s.caught? := by
  obtain ⟨pruning, watch, supervisor, rfl⟩ := h.variant
  rfl

end Search

namespace Chart

variable {s s' : Search} {times : List Time} {c c' : Chart} {n : Nat}

/-- Steps keep two charts aligned if those with pruned ways do so on either side. -/
theorem aligned_foldl {α : Type} {f f' : Chart → α → Chart} (way : α → Way) {xs ys : List α}
    (himproves : ∀ c x, Improves s c (f c x)) (himproves' : ∀ c x, Improves s' c (f' c x))
    (hsame : ys.filter (fun x => c'.isOpen s' (way x)) = xs.filter fun x => c'.isOpen s' (way x))
    (both : ∀ x ∈ xs, x ∈ ys → ∀ c c', Aligned s s' c c' → s.IsFair (f c x).log →
      Aligned s s' (f c x) (f' c' x))
    (left : ∀ x ∈ xs, ∀ c c', Aligned s s' c c' → c'.prunes s' (way x).arrival = true →
      s.IsFair (f c x).log → Aligned s s' (f c x) c')
    (right : ∀ y ∈ ys, ∀ c c', Aligned s s' c c' → c'.prunes s' (way y).arrival = true →
      Aligned s s' c (f' c' y))
    (h : Aligned s s' c c') (hfair : s.IsFair (xs.foldl f c).log) :
    Aligned s s' (xs.foldl f c) (ys.foldl f' c') := by
  have hpruned : ∀ {x : α} {d' : Chart}, Improves s' c' d' → c'.isOpen s' (way x) = false →
      d'.prunes s' (way x).arrival = true := by
    intro x d' himp hclosed
    exact prunes_improves himp (by simpa [isOpen] using hclosed)
  refine (foldl_alongside (R := fun d d' => Improves s' c' d' ∧
    (s.IsFair d.log → Aligned s s' d d')) hsame ?_ ?_ ?_ ⟨.refl .., fun _ => h⟩).2 hfair
  · intro x hx hx' d d' hd
    refine ⟨hd.1.trans (himproves' d' x), fun hfair => ?_⟩
    exact both x hx hx' d d' (hd.2 (hfair.of_prefix (himproves d x).log)) hfair
  · intro x hx hclosed d d' hd
    refine ⟨hd.1, fun hfair => ?_⟩
    exact left x hx d d' (hd.2 (hfair.of_prefix (himproves d x).log)) (hpruned hd.1 hclosed) hfair
  · intro y hy hclosed d d' hd
    refine ⟨hd.1.trans (himproves' d' y), fun hfair => ?_⟩
    exact right y hy d d' (hd.2 hfair) (hpruned hd.1 hclosed)

/-- A trip that was caught and can be left at a position. -/
structure Riding (s : Search) (times : List Time) (v : PatternView) (n position stop : Nat)
    (e : Way × Search.Boarding) : Prop where
  traced : e.1.Traced s times
  catches : s.Catches v e.1 e.2
  round : e.1.arrival.round + 1 = n
  order : s.heading.Precedes e.2.position position
  stop : v.stops[position]? = some stop

theorem Riding.onward (hs : s.WellTimed) {v : PatternView} {position stop iteration : Nat}
    {e : Way × Search.Boarding} (hr : Riding s times v n position stop e) {a : StopArrival}
    (hleft : s.left? v n position stop iteration e.2 = some a) (hround : 0 < e.1.arrival.round) :
    s.Onward e.1.arrival a :=
  hr.traced.onward_ride hs hround hr.catches hr.stop hr.order (hr.round.symm ▸ hleft)

theorem Rides.riding (h : c.Sound s times) (hn : 0 < n) {v : PatternView} {position stop : Nat}
    {onboard : List (Way × Search.Boarding)}
    (hr : Rides s c v n (s.heading.Precedes · position) onboard)
    (hstop : v.stops[position]? = some stop) {e : Way × Search.Boarding} (he : e ∈ onboard) :
    Riding s times v n position stop e := by
  obtain ⟨hfresh, hcatch, horder⟩ := hr e he
  have hmem := (List.mem_filter.mp hfresh).1
  have hround := (h.placed hmem).1
  exact ⟨h.traced hmem, hcatch, by omega, horder, hstop⟩

section Scanning

variable {v : PatternView} {position stop : Nat} {e : Way × Search.Boarding}

theorem Aligned.alight (hv : s.HasVariant s') (hx : s.heading.IsExact) (h : Aligned s s' c c')
    (hfair : s.IsFair (c.alight s v n position stop e).log) :
    Aligned s s' (c.alight s v n position stop e) (c'.alight s' v n position stop e) := by
  unfold Chart.alight at hfair ⊢
  rw [hv.left?, h.iteration]
  cases hleft : s.left? v n position stop c.iteration e.2 with
  | none => exact h
  | some a =>
      simp only [hleft] at hfair
      exact h.settle hv hx (e.1.extend a) hfair

/-- The unpruned search alone leaves a trip after a pruned way. -/
theorem Aligned.alight_pruned (hv : s.HasVariant s') (hs : s.WellTimed) (h : Aligned s s' c c')
    (hr : Riding s times v n position stop e) (hp : c'.prunes s' e.1.arrival = true)
    (hfair : s.IsFair (c.alight s v n position stop e).log) :
    Aligned s s' (c.alight s v n position stop e) c' := by
  unfold Chart.alight at hfair ⊢
  cases hleft : s.left? v n position stop c.iteration e.2 with
  | none => exact h
  | some a =>
      simp only [hleft] at hfair
      have honward := hr.onward hs hleft (prunes_iff.mp hp).2.1
      have hpruned : c'.prunes s' a = true := prunes_onward (hv.heading ▸ hs.exact) (hv.onward honward) hp
      exact h.settle_pruned hv hs.exact (w := e.1.extend a) hpruned hfair

theorem alight_of_prunes (hs : s.WellTimed) (hr : Riding s times v n position stop e)
    (hp : c.prunes s e.1.arrival = true) : c.alight s v n position stop e = c := by
  unfold alight
  cases hleft : s.left? v n position stop c.iteration e.2 with
  | none => rfl
  | some a =>
      have honward := hr.onward hs hleft (prunes_iff.mp hp).2.1
      have hpruned : c.prunes s a = true := prunes_onward hs.exact honward hp
      exact settle_of_prunes (w := e.1.extend a) hpruned

theorem filter_caught (s : Search) (v : PatternView) (n position : Nat) (q : Way → Bool)
    (ws : List Way) : ((ws.filterMap (s.caught? v n position)).filter fun e => q e.1) =
      (ws.filter q).filterMap (s.caught? v n position) := by
  induction ws with
  | nil => rfl
  | cons w ws ih =>
      cases hcaught : s.caught? v n position w with
      | none => cases hq : q w <;> simp [hcaught, hq, ih]
      | some e =>
          have hway := Search.caught?_way hcaught
          cases hq : q w <;> simp [hcaught, hway, hq, ih]

/-- Trips are caught after the same open ways. -/
theorem Aligned.caught (hv : s.HasVariant s') (h : Aligned s s' c c') (round : Nat) :
    ((c'.fresh round stop).filterMap (s'.caught? v n position)).filter (fun e => c'.isOpen s' e.1) =
      ((c.fresh round stop).filterMap (s.caught? v n position)).filter
        fun e => c'.isOpen s' e.1 := by
  rw [filter_caught, filter_caught, hv.caught?, fresh, fresh, h.iteration, List.filter_comm,
    h.fronts, List.filter_comm]

/-- A chart while one goes along a pattern, and the trips that are on board at each
position to come. -/
structure Along (s : Search) (times : List Time) (c : Chart) (n : Nat) (v : PatternView)
    (entries : List (Nat × Nat)) (state : Chart × List (Way × Search.Boarding)) : Prop where
  sound : state.1.Sound s times
  frame : AgreeBut n c state.1
  rides : ∀ f ∈ entries, Rides s c v n (s.heading.Precedes · f.2) state.2

theorem Along.scanStop (h : c.Sound s times) (hn : 0 < n) (hview : v ∈ s.viewList)
    {entry : Nat × Nat} {entries : List (Nat × Nat)}
    {state : Chart × List (Way × Search.Boarding)}
    (ha : Along s times c n v (entry :: entries) state) (hstop : v.stops[entry.2]? = some entry.1)
    (hpairs : ∀ f ∈ entries, s.heading.Precedes entry.2 f.2) :
    Along s times c n v entries (Chart.scanStop s v n state entry) := by
  obtain ⟨⟨hsound, hframe, -⟩, hrides⟩ := keeps_scanStop (P := fun _ => True)
    (fun _ _ _ _ => trivial) h hn ha.sound ha.frame trivial hview
    (ha.rides entry (List.mem_cons_self ..)) hstop
  exact ⟨hsound, hframe, fun f hf => hrides.later (hpairs f hf)⟩

/-- The same open ways are on board in both searches. -/
def SameAboard (s' : Search) (c' : Chart) (onboard onboard' : List (Way × Search.Boarding)) : Prop :=
  onboard'.filter (fun e => c'.isOpen s' e.1) = onboard.filter fun e => c'.isOpen s' e.1

variable {state state' : Chart × List (Way × Search.Boarding)} {d d' : Chart}

theorem aligned_scanStop (hv : s.HasVariant s') (hs : s.WellTimed) (hs' : s'.WellTimed)
    (hc : c.Sound s times) (hc' : c'.Sound s' times) (hn : 0 < n) {entry : Nat × Nat}
    {entries : List (Nat × Nat)} (hstop : v.stops[entry.2]? = some entry.1)
    (ha : Along s times c n v (entry :: entries) state)
    (ha' : Along s' times c' n v (entry :: entries) state')
    (hsame : SameAboard s' state'.1 state.2 state'.2) (h : Aligned s s' state.1 state'.1)
    (hfair : s.IsFair (scanStop s v n state entry).1.log) :
    Aligned s s' (scanStop s v n state entry).1 (scanStop s' v n state' entry).1
      ∧ SameAboard s' (scanStop s' v n state' entry).1 (scanStop s v n state entry).2
        (scanStop s' v n state' entry).2 := by
  unfold scanStop at hfair ⊢
  rw [hv.filter]
  split
  case isFalse => exact ⟨h, hsame⟩
  case isTrue hallowed =>
    rw [if_pos hallowed] at hfair
    have halighted := aligned_foldl (s := s) Prod.fst
      (fun c e => improves_alight c v n entry.2 entry.1 e)
      (fun c e => improves_alight c v n entry.2 entry.1 e) hsame
      (fun e _ _ c c' h hfair => h.alight hv hs.exact hfair)
      (fun e he c c' h hp hfair => h.alight_pruned hv hs
        ((ha.rides entry (List.mem_cons_self ..)).riding hc hn hstop he) hp hfair)
      (fun e he c c' h hp => by
        rwa [alight_of_prunes hs'
          ((ha'.rides entry (List.mem_cons_self ..)).riding hc' hn hstop he) hp])
      h hfair
    refine ⟨halighted, ?_⟩
    have himproves : Improves s' state'.1
        (state'.2.foldl (fun c b => c.alight s' v n entry.2 entry.1 b) state'.1) :=
      .foldl (fun c b _ => improves_alight c v n entry.2 entry.1 b) _
    change List.filter _ _ = List.filter _ _
    rw [List.filter_append, List.filter_append, halighted.caught hv (n - 1)]
    refine congrArg (· ++ _) (filter_eq_of_imp (fun e hopen => ?_) hsame)
    rw [isOpen_iff, ← Bool.not_eq_true] at hopen ⊢
    exact fun hp => hopen (prunes_improves himproves hp)

theorem aligned_scanStops (hv : s.HasVariant s') (hs : s.WellTimed) (hs' : s'.WellTimed)
    (hc : c.Sound s times) (hc' : c'.Sound s' times) (hn : 0 < n) (hview : v ∈ s.viewList)
    (hview' : v ∈ s'.viewList) {entries : List (Nat × Nat)}
    (hpairs : entries.Pairwise fun e f => s.heading.Precedes e.2 f.2)
    (hpairs' : entries.Pairwise fun e f => s'.heading.Precedes e.2 f.2)
    (hstops : ∀ f ∈ entries, v.stops[f.2]? = some f.1)
    (ha : Along s times c n v entries state) (ha' : Along s' times c' n v entries state')
    (hsame : SameAboard s' state'.1 state.2 state'.2) (h : Aligned s s' state.1 state'.1)
    (hfair : s.IsFair (entries.foldl (scanStop s v n) state).1.log) :
    Aligned s s' (entries.foldl (scanStop s v n) state).1
      (entries.foldl (scanStop s' v n) state').1 := by
  induction entries generalizing state state' with
  | nil => exact h
  | cons entry entries ih =>
      rw [List.pairwise_cons] at hpairs hpairs'
      have hstop := hstops entry (List.mem_cons_self ..)
      rw [List.foldl_cons] at hfair ⊢
      obtain ⟨hnext, hboth⟩ := aligned_scanStop hv hs hs' hc hc' hn hstop ha ha' hsame h
        (hfair.of_prefix (improves_scanStops v n entries _).log)
      exact ih hpairs.2 hpairs'.2 (fun f hf => hstops f (List.mem_cons_of_mem _ hf))
        (ha.scanStop hc hn hview hstop hpairs.1) (ha'.scanStop hc' hn hview' hstop hpairs'.1)
        hboth hnext hfair

/-- Both searches go along a pattern. -/
theorem aligned_scan (hv : s.HasVariant s') (hs : s.WellTimed) (hs' : s'.WellTimed)
    (hc : c.Sound s times) (hc' : c'.Sound s' times) (hn : 0 < n) (hview : v ∈ s.viewList)
    (hview' : v ∈ s'.viewList) (h : Aligned s s' c c') (hfair : s.IsFair (c.scan s n v).log) :
    Aligned s s' (c.scan s n v) (c'.scan s' n v) := by
  have hheading := hv.heading
  have hpairs := s.heading.pairwise_inOrder v.stops.toList
  have hnone : ∀ {s : Search} {c : Chart}, c.Sound s times →
      Along s times c n v (s.heading.inOrder v.stops.toList) (c, []) := fun hc =>
    ⟨hc, .refl .., fun _ _ _ he => absurd he List.not_mem_nil⟩
  unfold scan at hfair ⊢
  rw [hheading]
  refine aligned_scanStops hv hs hs' hc hc' hn hview hview' hpairs ?_ ?_ (hnone hc) ?_ rfl h hfair
  · rw [hheading]
    exact hpairs
  · intro f hf
    simpa using Heading.mem_inOrder.mp hf
  · rw [← hheading]
    exact hnone hc'

end Scanning

section Rounds

variable {w : Way}

theorem aligned_transit (hv : s.HasVariant s') (hs : s.WellTimed) (hs' : s'.WellTimed)
    (hc : c.Sound s times) (hc' : c'.Sound s' times) (hn : 0 < n) (h : Aligned s s' c c')
    (hfair : s.IsFair (c.transit s n).log) : Aligned s s' (c.transit s n) (c'.transit s' n) := by
  have hviews : s'.viewList = s.viewList := by
    obtain ⟨pruning, watch, supervisor, rfl⟩ := hv.variant
    rfl
  unfold transit at hfair ⊢
  rw [hviews]
  refine (foldl_both (R := fun d d' => d.Sound s times ∧ d'.Sound s' times ∧
    (s.IsFair d.log → Aligned s s' d d')) s.viewList (fun v hmem d d' hd => ?_)
    ⟨hc, hc', fun _ => h⟩).2.2 hfair
  have hmem' : v ∈ s'.viewList := hviews.symm ▸ hmem
  refine ⟨(sound_scan hd.1 hmem hn).1, (sound_scan hd.2.1 hmem' hn).1, fun hfair => ?_⟩
  have hbefore := hd.2.2 (hfair.of_prefix (improves_scan d n v).log)
  exact aligned_scan hv hs hs' hd.1 hd.2.1 hn hmem hmem' hbefore hfair

/-- The unpruned search alone walks on from a pruned way. -/
theorem Aligned.stroll_pruned (hv : s.HasVariant s') (hs : s.WellTimed) (hw : w.Traced s times)
    (h : Aligned s s' c c') (hp : c'.prunes s' w.arrival = true)
    (hfair : s.IsFair (c.stroll s w).log) : Aligned s s' (c.stroll s w) c' := by
  unfold Chart.stroll at hfair ⊢
  split
  case isFalse => exact h
  case isTrue hwalks =>
    rw [if_pos hwalks] at hfair
    refine List.foldlRecOn _ _ (motive := fun d : Chart => s.IsFair d.log → Aligned s s' d c')
      (fun _ => h) ?_ hfair
    intro d hd k hk hfair
    have hpruned : c'.prunes s' (s.walkArrival 0 w.arrival k) = true :=
      prunes_onward (hv.heading ▸ hs.exact) (hv.onward (hw.onward_walk hs hk)) hp
    exact (hd (hfair.of_prefix (improves_offer d _).log)).offer_pruned hv
      (w := w.extend (s.walkArrival 0 w.arrival k)) hpruned hfair

theorem stroll_of_prunes (hs : s.WellTimed) (hw : w.Traced s times)
    (hp : c.prunes s w.arrival = true) : c.stroll s w = c := by
  unfold stroll
  split
  case isFalse => rfl
  case isTrue =>
    refine List.foldlRecOn _ _ (motive := fun d => d = c) rfl ?_
    rintro d rfl k hk
    have hpruned : d.prunes s (s.walkArrival 0 w.arrival k) = true :=
      prunes_onward hs.exact (hw.onward_walk hs hk) hp
    exact offer_of_prunes (w := w.extend (s.walkArrival 0 w.arrival k)) hpruned

/-- Both searches walk on from a way. -/
theorem Aligned.stroll (hv : s.HasVariant s') (hs : s.WellTimed) (hs' : s'.WellTimed)
    (hw : w.Traced s times) (hw' : w.Traced s' times) (h : Aligned s s' c c')
    (hfair : s.IsFair (c.stroll s w).log) :
    Aligned s s' (c.stroll s w) (c'.stroll s' w) := by
  cases hp : c'.prunes s' w.arrival with
  | true =>
      rw [stroll_of_prunes hs' hw' hp]
      exact h.stroll_pruned hv hs hw hp hfair
  | false =>
      obtain ⟨pruning, watch, supervisor, rfl⟩ := hv.variant
      have hstands := h.mem_fronts hp w.arrival.round w.arrival.stop
      unfold Chart.stroll at hfair ⊢
      by_cases hwalks : w ∈ c.fronts w.arrival.round w.arrival.stop ∧ w.arrival.isTransit = true
      · rw [if_pos hwalks] at hfair
        rw [if_pos hwalks, if_pos ⟨hstands.mpr hwalks.1, hwalks.2⟩]
        refine foldl_both (R := fun d d' => s.IsFair d.log →
          Aligned s (s.variant pruning watch supervisor) d d')
          (s.heading.walks s.timetable w.arrival.stop) (fun k _ d d' hd hfair => ?_)
          (fun _ => h) hfair
        exact (hd (hfair.of_prefix (improves_offer d _).log)).offer hv _ hfair
      · rw [if_neg hwalks, if_neg fun hwalks' => hwalks ⟨hstands.mp hwalks'.1, hwalks'.2⟩]
        exact h

theorem aligned_walk (hv : s.HasVariant s') (hs : s.WellTimed) (hs' : s'.WellTimed)
    (hc : c.Sound s times) (hc' : c'.Sound s' times) (h : Aligned s s' c c')
    (hfair : s.IsFair (c.walk s n).log) : Aligned s s' (c.walk s n) (c'.walk s' n) :=
  aligned_foldl (fun w => w) improves_stroll improves_stroll (h.reached n)
    (fun _ hw hw' _ _ h hfair =>
      h.stroll hv hs hs' (hc.reached hw).1 (hc'.reached hw').1 hfair)
    (fun _ hw _ _ h hp hfair => h.stroll_pruned hv hs (hc.reached hw).1 hp hfair)
    (fun _ hw _ _ h hp => by rwa [stroll_of_prunes hs' (hc'.reached hw).1 hp]) h hfair

theorem aligned_rounds (hv : s.HasVariant s') (hs : s.WellTimed) (hs' : s'.WellTimed)
    (hc : c.Sound s times) (hc' : c'.Sound s' times) {count first : Nat} (hfirst : 0 < first)
    (h : Aligned s s' c c') (hfair : s.IsFair (c.rounds s count first).log) :
    Aligned s s' (c.rounds s count first) (c'.rounds s' count first) := by
  induction count generalizing c c' first with
  | zero => exact h
  | succ count ih =>
      rw [rounds_succ] at hfair ⊢
      rw [rounds_succ]
      have hround := hfair.of_prefix (improves_rounds (c.round s first) count (first + 1)).log
      have htransit := hround.of_prefix (improves_walk (c.transit s first) first).log
      refine ih (sound_round hc hfirst).1 (sound_round hc' hfirst).1 (Nat.succ_pos first) ?_ hfair
      exact aligned_walk hv hs hs' (sound_transit hc hfirst).1 (sound_transit hc' hfirst).1
        (aligned_transit hv hs hs' hc hc' hfirst h htransit) hround

theorem aligned_seed (hv : s.HasVariant s') (h : Aligned s s' c c') {time : Time}
    (hfair : s.IsFair (c.seed s time).log) : Aligned s s' (c.seed s time) (c'.seed s' time) := by
  obtain ⟨pruning, watch, supervisor, rfl⟩ := hv.variant
  refine foldl_both (R := fun d d' => s.IsFair d.log →
    Aligned s (s.variant pruning watch supervisor) d d') s.origin
    (fun leg _ d d' hd hfair => ?_) (fun _ => h) hfair
  have hbefore := hd (hfair.of_prefix (improves_offer d _).log)
  rw [hbefore.iteration]
  exact hbefore.offer hv ⟨s.originArrival time d.iteration leg, []⟩ hfair

theorem aligned_iterate (hv : s.HasVariant s') (hs : s.WellTimed) (hs' : s'.WellTimed)
    (hc : c.Sound s times) (hc' : c'.Sound s' times) {time : Time} (ht : time ∈ times)
    (h : Aligned s s' c c') (hfair : s.IsFair (c.iterate s time).log) :
    Aligned s s' (c.iterate s time) (c'.iterate s' time) := by
  have hrounds : s'.maxRounds = s.maxRounds := by
    obtain ⟨pruning, watch, supervisor, rfl⟩ := hv.variant
    rfl
  have hbegin : Aligned s s' c.begin c'.begin :=
    ⟨h.journeys, congrArg (· + 1) h.iteration, h.fronts, fun _ => rfl, h.covered,
      ⟨h.logged.each, h.logged.known⟩⟩
  have hseed := hfair.of_prefix (improves_rounds (c.begin.seed s time) s.maxRounds 1).log
  unfold iterate at hfair ⊢
  rw [hrounds]
  exact aligned_rounds hv hs hs' (sound_seed (sound_begin hc) ht).1 (sound_seed (sound_begin hc') ht).1
    Nat.one_pos (aligned_seed hv hbegin hseed) hfair

/-- If a search is fair, a variant of it finds the same journeys. -/
theorem journeys_of_fair (hv : s.HasVariant s') (hs : s.WellTimed) (hs' : s'.WellTimed)
    (hfair : s.IsFair s.chart.log) : s'.chart.journeys = s.chart.journeys := by
  have htimes : s'.times = s.times := by
    obtain ⟨pruning, watch, supervisor, rfl⟩ := hv.variant
    rfl
  have hempty : Aligned s s' .empty .empty := by
    refine ⟨rfl, rfl, fun _ _ => rfl, fun _ => rfl, fun h => ?_, ?_⟩
    · exact absurd h List.not_mem_nil
    · exact ⟨fun _ hj => absurd hj List.not_mem_nil, fun hm => absurd hm List.not_mem_nil⟩
  unfold Search.chart at hfair ⊢
  rw [htimes]
  refine ((foldl_both (R := fun d d' => d.Sound s s.times ∧ d'.Sound s' s.times ∧
    (s.IsFair d.log → Aligned s s' d d')) s.times (fun time ht d d' hd => ?_)
    ⟨sound_empty .., sound_empty .., fun _ => hempty⟩).2.2 hfair).journeys
  refine ⟨sound_iterate hd.1 ht, sound_iterate hd.2.1 ht, fun hfair => ?_⟩
  have hbefore := hd.2.2 (hfair.of_prefix (improves_iterate d time).log)
  exact aligned_iterate hv hs hs' hd.1 hd.2.1 ht hbefore hfair

end Rounds
end Chart
end JourneyPlanner
