import JourneyPlanner.Proofs.Fairness

/-!
Two charts of the same search, one of them pruned. They have the same journeys, and
apart from ways that are pruned by now the same ways in the same order. The chart of the
unpruned search covers everything in the other one. Offering a way keeps this, as long as
the unpruned search is fair.
-/

namespace JourneyPlanner

/-- Two runs over lists that agree in some elements, where the other elements of each list
do not matter. -/
theorem foldl_alongside {σ τ α : Type} {R : σ → τ → Prop} {f : σ → α → σ} {g : τ → α → τ}
    {p : α → Bool} {xs ys : List α} (hsame : ys.filter p = xs.filter p)
    (both : ∀ x ∈ xs, x ∈ ys → ∀ c d, R c d → R (f c x) (g d x))
    (left : ∀ x ∈ xs, p x = false → ∀ c d, R c d → R (f c x) d)
    (right : ∀ y ∈ ys, p y = false → ∀ c d, R c d → R c (g d y)) {c : σ} {d : τ} (h : R c d) :
    R (xs.foldl f c) (ys.foldl g d) := by
  induction xs generalizing ys c d with
  | nil =>
      have hnone : ∀ y ∈ ys, p y = false := by simpa using hsame
      exact List.foldlRecOn ys g (motive := R c) h fun d hd y hy => right y hy (hnone y hy) c d hd
  | cons x xs ih =>
      have hleft : ∀ z ∈ xs, p z = false → ∀ c d, R c d → R (f c z) d :=
        fun z hz => left z (List.mem_cons_of_mem _ hz)
      rw [List.foldl_cons]
      cases hx : p x with
      | false =>
          rw [List.filter_cons_of_neg (by simp [hx])] at hsame
          refine ih hsame (fun z hz => both z (List.mem_cons_of_mem _ hz)) hleft right ?_
          exact left x (List.mem_cons_self ..) hx c d h
      | true =>
          rw [List.filter_cons_of_pos hx, List.filter_eq_cons_iff] at hsame
          obtain ⟨before, after, rfl, hbefore, -, hsame⟩ := hsame
          have hafter : ∀ z ∈ after, z ∈ before ++ x :: after :=
            fun z hz => List.mem_append_right _ (List.mem_cons_of_mem _ hz)
          have hskip : R c (before.foldl g d) :=
            List.foldlRecOn before g (motive := R c) h fun d hd z hz =>
              right z (List.mem_append_left _ hz) (by simpa using hbefore z hz) c d hd
          rw [List.foldl_append, List.foldl_cons]
          refine ih hsame (fun z hz hmem => both z (List.mem_cons_of_mem _ hz) (hafter z hmem)) hleft
            (fun z hz => right z (hafter z hz)) ?_
          exact both x (List.mem_cons_self ..) (List.mem_append_right _ (List.mem_cons_self ..)) c _
            hskip

/-- The same search, pruned or not, for anybody who watches or stops it. -/
def Search.variant (s : Search) (pruning : Bool) (watch : Option Watch) (supervisor : Supervisor) :
    Search :=
  { s with
    pruning := pruning
    watch := watch
    supervisor := supervisor }

/-- An unpruned search that is watched fully, and a variant of it. -/
structure Search.HasVariant (s s' : Search) : Prop where
  unpruned : s.pruning = false
  watched : s.isWatchedFully = true
  variant : ∃ pruning watch supervisor, s' = s.variant pruning watch supervisor

theorem Search.HasVariant.dominates {s s' : Search} (h : s.HasVariant s') :
    s'.dominates = s.dominates := by
  obtain ⟨pruning, watch, supervisor, rfl⟩ := h.variant
  rfl

namespace Chart

def isOpen (s : Search) (c : Chart) (w : Way) : Bool :=
  !c.prunes s w.arrival

/-- The reports tell which journeys are known. -/
structure Logged (s : Search) (c : Chart) : Prop where
  each : ∀ j ∈ c.journeys, Remark.journey j.ending.merits ∈ c.log
  known : ∀ {m : Merits}, Remark.journey m ∈ c.log → c.Beats s m

structure Aligned (s s' : Search) (c c' : Chart) : Prop where
  journeys : c'.journeys = c.journeys
  iteration : c'.iteration = c.iteration
  fronts : ∀ round stop,
    (c'.fronts round stop).filter (c'.isOpen s') = (c.fronts round stop).filter (c'.isOpen s')
  reached : ∀ round,
    (c'.reached round).filter (c'.isOpen s') = (c.reached round).filter (c'.isOpen s')
  covered : ∀ {round stop : Nat} {v : Way}, v ∈ c'.fronts round stop →
    ∃ r ≤ round, ∃ u ∈ c.fronts r stop, s.dominates u.arrival v.arrival = true
  logged : c.Logged s

variable {s s' : Search} {c c' : Chart} {w : Way} {a : StopArrival}

theorem prunes_iff : c.prunes s a = true ↔
    s.pruning = true ∧ 0 < a.round ∧ c.Beats s (s.bound a) :=
  prunes_eq_true

theorem isOpen_iff : c.isOpen s w = true ↔ c.prunes s w.arrival = false := by
  simp [isOpen]

/-- What goes on from a pruned arrival is pruned too. -/
theorem prunes_onward (hx : s.heading.IsExact) {b : StopArrival} (hab : s.Onward a b)
    (h : c.prunes s a = true) : c.prunes s b = true := by
  obtain ⟨hpruning, hround, j, hj, hdominates⟩ := prunes_iff.mp h
  exact prunes_iff.mpr ⟨hpruning, Nat.lt_of_lt_of_le hround hab.round, j, hj,
    Merits.dominates_trans hdominates (hab.bound hx)⟩

theorem prunes_improves (h : Improves s c c') (ha : c.prunes s a = true) :
    c'.prunes s a = true := by
  obtain ⟨hpruning, hround, hbeats⟩ := prunes_iff.mp ha
  exact prunes_iff.mpr ⟨hpruning, hround, h.beats hbeats⟩

theorem offer_of_prunes (h : c.prunes s w.arrival = true) : c.offer s w = c :=
  offer_of_pruned (fate_of_pruned h)

/-- What becomes of a way that is not accepted is reported. -/
theorem offer_of_not_accepted (h : c.fate s w.arrival ≠ .accepted) :
    ∃ rs, (∀ m, Remark.journey m ∉ rs) ∧ c.offer s w = c.note s rs := by
  cases hf : c.fate s w.arrival with
  | accepted => exact absurd hf h
  | pruned => exact ⟨[], by simp, by rw [offer_of_pruned hf, note_nil]⟩
  | rejected rival => exact ⟨[.contest rival.arrival w.arrival], by simp, offer_of_rejected hf⟩

theorem settle_of_prunes (h : c.prunes s w.arrival = true) : c.settle s w = c := by
  have hfate := fate_of_pruned h
  rw [settle_of_not_accepted (by simp [hfate]), offer_of_pruned hfate]

section Journeys

theorem addJourney_of_beats {j : Journey} (h : c.Beats s j.ending.merits) :
    c.addJourney s j = c := by
  obtain ⟨i, hi, hdominates⟩ := h
  have hsome : (Pareto.rival? (beats s) c.journeys j).isSome = true :=
    List.find?_isSome.mpr ⟨i, hi, hdominates⟩
  obtain ⟨rival, hrival⟩ := Option.isSome_iff_exists.mp hsome
  simp only [addJourney, Pareto.add, hrival]

/-- No journey along a beaten way is accepted. -/
theorem reach_of_beats (hx : s.heading.IsExact) (h : c.Beats s (s.bound w.arrival)) :
    c.reach s w = c := by
  refine List.foldlRecOn _ _ (motive := fun c' => c' = c) rfl ?_
  rintro c' rfl d hd
  obtain ⟨j, hj, hdominates⟩ := h
  exact addJourney_of_beats
    ⟨j, hj, Merits.dominates_trans hdominates (Search.bound_journeyFrom hx hd)⟩

theorem log_note (h : s.isWatchedFully = true) (rs : List Remark) :
    (c.note s rs).log = c.log ++ rs :=
  if_pos h

theorem logged_note (h : c.Logged s) (hwatched : s.isWatchedFully = true) {rs : List Remark}
    (hrs : ∀ m, Remark.journey m ∉ rs) : (c.note s rs).Logged s := by
  refine ⟨fun j hj => ?_, fun {m} hm => ?_⟩
  · rw [log_note hwatched]
    exact List.mem_append_left _ (h.each j hj)
  · rw [log_note hwatched, List.mem_append] at hm
    exact h.known (hm.resolve_right (hrs m))

theorem logged_addJourney (h : c.Logged s) (hwatched : s.isWatchedFully = true) (j : Journey) :
    (c.addJourney s j).Logged s := by
  have himproves := improves_addJourney (s := s) c j
  cases hr : Pareto.rival? (beats s) c.journeys j with
  | some rival =>
      have hsame : c.addJourney s j = c := by simp only [addJourney, Pareto.add, hr]
      rwa [hsame]
  | none =>
      have hjourneys : (c.addJourney s j).journeys =
          c.journeys.filter (fun i => !beats s j i) ++ [j] := by
        rw [journeys_addJourney, Pareto.insert_of_none hr]
      have hlog : (c.addJourney s j).log = c.log ++ [.journey j.ending.merits] := by
        simp only [addJourney, Pareto.add, hr]
        exact log_note hwatched _
      refine ⟨fun i hi => ?_, fun {m} hm => ?_⟩
      · rw [hjourneys, List.mem_append, List.mem_filter, List.mem_singleton] at hi
        rw [hlog, List.mem_append, List.mem_singleton]
        rcases hi with ⟨hi, -⟩ | rfl
        · exact Or.inl (h.each i hi)
        · exact Or.inr rfl
      · rw [hlog, List.mem_append, List.mem_singleton] at hm
        cases hm with
        | inl hm => exact himproves.beats (h.known hm)
        | inr hm =>
            refine ⟨j, ?_, ?_⟩
            · rw [hjourneys]
              exact List.mem_append_right _ (List.mem_singleton.mpr rfl)
            · rw [Remark.journey.inj hm]
              exact Merits.dominates_refl ..

end Journeys

/-- Lists that agree in what is open agree in what is still open later on. -/
theorem filter_eq_of_imp {α : Type} {p q : α → Bool} {xs ys : List α}
    (hpq : ∀ x, q x = true → p x = true) (h : xs.filter p = ys.filter p) :
    xs.filter q = ys.filter q := by
  have hkeep : ∀ zs : List α, (zs.filter p).filter q = zs.filter q := by
    intro zs
    rw [List.filter_filter]
    refine List.filter_congr fun z _ => ?_
    cases hz : q z with
    | false => rfl
    | true => simp [hpq z hz]
  rw [← hkeep xs, h, hkeep ys]

theorem Aligned.note' (h : Aligned s s' c c') (rs : List Remark) :
    Aligned s s' c (c'.note s' rs) :=
  ⟨h.journeys, h.iteration, h.fronts, h.reached, h.covered, h.logged⟩

/-- An open way stands in both charts or in none. -/
theorem Aligned.mem_fronts (h : Aligned s s' c c') (hw : c'.prunes s' w.arrival = false)
    (round stop : Nat) : w ∈ c'.fronts round stop ↔ w ∈ c.fronts round stop := by
  have hopen : c'.isOpen s' w = true := isOpen_iff.mpr hw
  have hfronts := h.fronts round stop
  constructor
  · intro hmem
    have hmem' : w ∈ (c'.fronts round stop).filter (c'.isOpen s') := List.mem_filter.mpr ⟨hmem, hopen⟩
    rw [hfronts] at hmem'
    exact (List.mem_filter.mp hmem').1
  · intro hmem
    have hmem' : w ∈ (c.fronts round stop).filter (c'.isOpen s') := List.mem_filter.mpr ⟨hmem, hopen⟩
    rw [← hfronts] at hmem'
    exact (List.mem_filter.mp hmem').1

/-- Whoever was covered is covered after a way was kept. -/
theorem covered_keep {v : Way} {round stop : Nat}
    (h : ∃ r ≤ round, ∃ u ∈ c.fronts r stop, s.dominates u.arrival v.arrival = true) :
    ∃ r ≤ round, ∃ u ∈ (c.keep s w).fronts r stop, s.dominates u.arrival v.arrival = true := by
  obtain ⟨r, hr, u, hu, hdominates⟩ := h
  refine ⟨r, hr, ?_⟩
  by_cases hplace : w.arrival.round = r ∧ w.arrival.stop = stop
  · have hfront : (c.keep s w).fronts r stop = c.frontAfter s w := if_pos hplace
    rw [hfront, frontAfter, hplace.1, hplace.2]
    by_cases hdropped : s.dominates w.arrival u.arrival = true
    · exact ⟨w, List.mem_append_right _ (List.mem_singleton.mpr rfl),
        Search.dominates_trans hdropped hdominates⟩
    · exact ⟨u, List.mem_append_left _ (List.mem_filter.mpr ⟨hu, by simp [hdropped]⟩), hdominates⟩
  · have hfront : (c.keep s w).fronts r stop = c.fronts r stop := if_neg hplace
    exact ⟨u, hfront ▸ hu, hdominates⟩

/-- The unpruned search keeps a pruned way, and loses only pruned ways for it. -/
theorem Aligned.keep_pruned (h : Aligned s s' c c') (hp : c'.prunes s' w.arrival = true)
    (hdropped : ∀ v ∈ c.dropped s w.arrival, c'.prunes s' v.arrival = true) :
    Aligned s s' (c.keep s w) c' where
  journeys := h.journeys
  iteration := h.iteration
  fronts round stop := by
    have hclosed : c'.isOpen s' w = false := by simp [isOpen, hp]
    rw [h.fronts]
    by_cases hplace : w.arrival.round = round ∧ w.arrival.stop = stop
    · have hfront : (c.keep s w).fronts round stop = c.frontAfter s w := if_pos hplace
      obtain ⟨rfl, rfl⟩ := hplace
      rw [hfront, frontAfter, List.filter_append, List.filter_filter]
      simp only [List.filter_cons, hclosed, List.filter_nil, Bool.false_eq_true, if_false,
        List.append_nil]
      refine List.filter_congr fun v hv => ?_
      cases hopen : c'.isOpen s' v with
      | false => rfl
      | true =>
          -- an open way was not dropped
          cases hloses : s.dominates w.arrival v.arrival with
          | false => rfl
          | true =>
              have hpruned := hdropped v (List.mem_filter.mpr ⟨hv, hloses⟩)
              simp [isOpen, hpruned] at hopen
    · have hfront : (c.keep s w).fronts round stop = c.fronts round stop := if_neg hplace
      rw [hfront]
  reached round := by
    have hclosed : c'.isOpen s' w = false := by simp [isOpen, hp]
    rw [h.reached]
    simp only [keep]
    split
    · rw [List.filter_append]
      simp [hclosed]
    · rfl
  covered hmem := covered_keep (h.covered hmem)
  logged := ⟨h.logged.each, h.logged.known⟩

/-- Both searches keep a way. -/
theorem Aligned.keep (hv : s.HasVariant s') (h : Aligned s s' c c') (w : Way) :
    Aligned s s' (c.keep s w) (c'.keep s' w) where
  journeys := h.journeys
  iteration := h.iteration
  fronts round stop := by
    have hdominates : s'.dominates = s.dominates := hv.dominates
    change List.filter (c'.isOpen s') _ = List.filter (c'.isOpen s') _
    simp only [Chart.keep, frontAfter, hdominates]
    split
    · rw [List.filter_append, List.filter_append, List.filter_comm, h.fronts, List.filter_comm]
    · exact h.fronts round stop
  reached round := by
    change List.filter (c'.isOpen s') _ = List.filter (c'.isOpen s') _
    simp only [Chart.keep]
    split
    · rw [List.filter_append, List.filter_append, h.reached]
    · exact h.reached round
  covered {round stop v} hmem := by
    rcases mem_fronts_keep hmem with ⟨rfl, hplace⟩ | hmem
    · refine ⟨round, Nat.le_refl _, v, ?_, StopArrival.dominates_refl _⟩
      have hfront : (c.keep s v).fronts round stop = c.frontAfter s v := if_pos hplace
      rw [hfront, frontAfter]
      exact List.mem_append_right _ (List.mem_singleton.mpr rfl)
    · exact covered_keep (h.covered hmem)
  logged := ⟨h.logged.each, h.logged.known⟩

section Offering

variable (hv : s.HasVariant s')

include hv

theorem Aligned.isBeaten (h : Aligned s s' c c') (a : StopArrival) :
    c'.prunes s' a = true ↔ s'.pruning = true ∧ s.isBeaten c.log a = true := by
  obtain ⟨pruning, watch, supervisor, rfl⟩ := hv.variant
  rw [prunes_iff, Search.isBeaten_iff]
  refine and_congr_right fun _ => and_congr_right fun _ => ?_
  constructor
  · rintro ⟨j, hj, hdominates⟩
    exact ⟨_, h.logged.each j (h.journeys ▸ hj), hdominates⟩
  · rintro ⟨m, hm, hdominates⟩
    obtain ⟨j, hj, hj'⟩ := h.logged.known hm
    exact ⟨j, h.journeys.symm ▸ hj, Merits.dominates_trans hj' hdominates⟩

/-- In a fair search a pruned winner has only pruned losers. -/
theorem Aligned.prunes_loser (h : Aligned s s' c c') {winner loser : StopArrival}
    (rest : List Remark) (hfair : s.IsFair (c.log ++ .contest winner loser :: rest))
    (hp : c'.prunes s' winner = true) : c'.prunes s' loser = true := by
  obtain ⟨hpruning, hbeaten⟩ := (h.isBeaten hv winner).mp hp
  exact (h.isBeaten hv loser).mpr ⟨hpruning, hfair.allows hbeaten⟩

theorem Aligned.note (h : Aligned s s' c c') {rs : List Remark}
    (hrs : ∀ m, Remark.journey m ∉ rs) : Aligned s s' (c.note s rs) c' where
  journeys := h.journeys
  iteration := h.iteration
  fronts := h.fronts
  reached := h.reached
  covered := h.covered
  logged := logged_note h.logged hv.watched hrs

/-- The unpruned search alone places a pruned way. -/
theorem Aligned.place_pruned (h : Aligned s s' c c') (hp : c'.prunes s' w.arrival = true)
    (hfair : s.IsFair (c.place s w).log) : Aligned s s' (c.place s w) c' := by
  refine (h.keep_pruned hp fun v hdropped => ?_).note hv (by simp)
  obtain ⟨before, after, hsplit⟩ := List.append_of_mem hdropped
  have hbefore : Aligned s s' (c.note s (before.map fun u => .contest w.arrival u.arrival)) c' :=
    h.note hv (by simp)
  refine hbefore.prunes_loser hv (after.map fun u => .contest w.arrival u.arrival) ?_ hp
  rw [place, log_note hv.watched, hsplit, List.map_append, List.map_cons, ← List.append_assoc] at hfair
  rw [log_note hv.watched]
  exact hfair

/-- The unpruned search alone is offered a pruned way. -/
theorem Aligned.offer_pruned (h : Aligned s s' c c') (hp : c'.prunes s' w.arrival = true)
    (hfair : s.IsFair (c.offer s w).log) : Aligned s s' (c.offer s w) c' := by
  by_cases hf : c.fate s w.arrival = .accepted
  · rw [offer_of_accepted hf] at hfair ⊢
    exact h.place_pruned hv hp hfair
  · obtain ⟨rs, hrs, hoffer⟩ := offer_of_not_accepted hf
    rw [hoffer]
    exact h.note hv hrs

theorem Aligned.settle_pruned (hx : s.heading.IsExact) (h : Aligned s s' c c')
    (hp : c'.prunes s' w.arrival = true) (hfair : s.IsFair (c.settle s w).log) : Aligned s s' (c.settle s w) c' := by
  by_cases hf : c.fate s w.arrival = .accepted
  · have hbeats : (c.place s w).Beats s (s.bound w.arrival) := by
      obtain ⟨pruning, watch, supervisor, rfl⟩ := hv.variant
      obtain ⟨-, -, j, hj, hdominates⟩ := prunes_iff.mp hp
      exact ⟨j, h.journeys ▸ hj, hdominates⟩
    rw [settle_of_accepted hf, reach_of_beats hx hbeats] at hfair ⊢
    exact h.place_pruned hv hp hfair
  · rw [settle_of_not_accepted hf] at hfair ⊢
    exact h.offer_pruned hv hp hfair

/-- What the unpruned search accepts the other one accepts, unless it prunes it. -/
theorem Aligned.accepted (h : Aligned s s' c c') (hp : c'.prunes s' a = false)
    (hf : c.fate s a = .accepted) : c'.fate s' a = .accepted := by
  rw [fate_eq_accepted] at hf ⊢
  refine ⟨hp, fun r hr v hmem => ?_⟩
  rw [hv.dominates, ← Bool.not_eq_true]
  intro hdominates
  obtain ⟨r', hr', u, hu, hcovers⟩ := h.covered hmem
  have hnot := hf.2 r' (Nat.le_trans hr' hr) u hu
  rw [Search.dominates_trans hcovers hdominates] at hnot
  exact Bool.noConfusion hnot

/-- What a fair search rejects the other one does not accept. -/
theorem Aligned.not_accepted (h : Aligned s s' c c') (hf : c.fate s w.arrival ≠ .accepted)
    (hfair : s.IsFair (c.offer s w).log) : c'.fate s' w.arrival ≠ .accepted := by
  intro hf'
  obtain ⟨hopen, hnone⟩ := fate_eq_accepted.mp hf'
  cases hfate : c.fate s w.arrival with
  | accepted => exact hf hfate
  | pruned =>
      have hprunes := of_fate_pruned hfate
      simp [prunes, hv.unpruned] at hprunes
  | rejected rival =>
      obtain ⟨r, hr, hmem, hdominates⟩ := of_fate_rejected hfate
      rw [offer_of_rejected hfate, log_note hv.watched] at hfair
      have hrival : c'.prunes s' rival.arrival = false := by
        rw [← Bool.not_eq_true]
        intro hp
        rw [h.prunes_loser hv [] hfair hp] at hopen
        exact Bool.noConfusion hopen
      have hnot := hnone r hr rival ((h.mem_fronts hrival ..).mpr hmem)
      rw [hv.dominates, hdominates] at hnot
      exact Bool.noConfusion hnot

theorem Aligned.place (h : Aligned s s' c c') (w : Way) :
    Aligned s s' (c.place s w) (c'.place s' w) :=
  ((h.keep hv w).note hv (by simp)).note' _

/-- Both searches are offered a way. -/
theorem Aligned.offer (h : Aligned s s' c c') (w : Way) (hfair : s.IsFair (c.offer s w).log) :
    Aligned s s' (c.offer s w) (c'.offer s' w) := by
  cases hp : c'.prunes s' w.arrival with
  | true =>
      rw [offer_of_prunes hp]
      exact h.offer_pruned hv hp hfair
  | false =>
      by_cases hf : c.fate s w.arrival = .accepted
      · rw [offer_of_accepted hf, offer_of_accepted (h.accepted hv hp hf)]
        exact h.place hv w
      · obtain ⟨rs, hrs, hoffer⟩ := offer_of_not_accepted hf
        obtain ⟨rs', -, hoffer'⟩ := offer_of_not_accepted (h.not_accepted hv hf hfair)
        rw [hoffer, hoffer']
        exact (h.note hv hrs).note' rs'

theorem Aligned.addJourney (h : Aligned s s' c c') (j : Journey) :
    Aligned s s' (c.addJourney s j) (c'.addJourney s' j) := by
  obtain ⟨hfronts, hreached, hiteration⟩ := addJourney_frame (s := s) (c := c) j
  obtain ⟨hfronts', hreached', hiteration'⟩ := addJourney_frame (s := s') (c := c') j
  have hstill : ∀ v, (c'.addJourney s' j).isOpen s' v = true → c'.isOpen s' v = true := by
    intro v hopen
    rw [isOpen_iff, ← Bool.not_eq_true] at hopen ⊢
    exact fun hp => hopen (prunes_improves (improves_addJourney c' j) hp)
  have hbeats : beats s' = beats s := by
    obtain ⟨pruning, watch, supervisor, rfl⟩ := hv.variant
    rfl
  refine ⟨?_, ?_, fun round stop => ?_, fun round => ?_, fun {round stop v} hmem => ?_,
    logged_addJourney h.logged hv.watched j⟩
  · rw [journeys_addJourney, journeys_addJourney, h.journeys, hbeats]
  · rw [hiteration', hiteration, h.iteration]
  · rw [hfronts', hfronts]
    exact filter_eq_of_imp hstill (h.fronts round stop)
  · rw [hreached', hreached]
    exact filter_eq_of_imp hstill (h.reached round)
  · rw [hfronts'] at hmem
    rw [hfronts]
    exact h.covered hmem

theorem Aligned.reach (h : Aligned s s' c c') (w : Way) :
    Aligned s s' (c.reach s w) (c'.reach s' w) := by
  obtain ⟨pruning, watch, supervisor, rfl⟩ := hv.variant
  exact foldl_both (R := Aligned s (s.variant pruning watch supervisor))
    (s.targetDurations w.arrival.stop) (fun d _ _ _ h => h.addJourney hv (journeyAlong s w d)) h

/-- In both searches a way by a trip is offered. -/
theorem Aligned.settle (hx : s.heading.IsExact) (h : Aligned s s' c c') (w : Way)
    (hfair : s.IsFair (c.settle s w).log) :
    Aligned s s' (c.settle s w) (c'.settle s' w) := by
  cases hp : c'.prunes s' w.arrival with
  | true =>
      rw [settle_of_prunes hp]
      exact h.settle_pruned hv hx hp hfair
  | false =>
      by_cases hf : c.fate s w.arrival = .accepted
      · rw [settle_of_accepted hf, settle_of_accepted (h.accepted hv hp hf)]
        exact (h.place hv w).reach hv w
      · rw [settle_of_not_accepted hf] at hfair ⊢
        rw [settle_of_not_accepted (h.not_accepted hv hf hfair)]
        exact h.offer hv w hfair

end Offering
end Chart
end JourneyPlanner
