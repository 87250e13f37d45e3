import JourneyPlanner.Proofs.Ways

/-!
What stays true of the table of a search while arrivals are added to it: its
fronts list accepted arrivals where they belong, every accepted arrival is
dominated by one still listed, and no two accepted arrivals are the same.
-/

namespace JourneyPlanner

namespace StopArrival

variable {h : Heading} {compareCost : Bool}

theorem dominates_refl (a : StopArrival) : dominates h compareCost a a = true := by
  simp [dominates, Heading.betterOrEqual_refl]

theorem dominates_trans {a b c : StopArrival} (hab : dominates h compareCost a b = true)
    (hbc : dominates h compareCost b c = true) : dominates h compareCost a c = true := by
  simp only [dominates, Bool.and_eq_true, Bool.or_eq_true, decide_eq_true_eq] at *
  refine ⟨h.betterOrEqual_trans hab.1 hbc.1, ?_⟩
  cases hab.2 with
  | inl hc => exact Or.inl hc
  | inr hab => exact hbc.2.imp_right (Nat.le_trans hab)

@[simp] theorem dominates_unlinked_left (a b : StopArrival) :
    dominates h compareCost a.unlinked b = dominates h compareCost a b :=
  rfl

@[simp] theorem dominates_unlinked_right (a b : StopArrival) :
    dominates h compareCost a b.unlinked = dominates h compareCost a b :=
  rfl

theorem dominates_of_unlinked_eq {a b c : StopArrival} (hab : a.unlinked = b.unlinked)
    (h' : dominates h compareCost c a = true) : dominates h compareCost c b = true := by
  rw [← dominates_unlinked_right, ← hab, dominates_unlinked_right]
  exact h'

end StopArrival

namespace StopTable

structure Tidy (dominates : StopArrival → StopArrival → Bool) (t : StopTable) : Prop where
  linked : t.IsLinked
  listed : ∀ {round stop : Nat} {labels : List Label}, t.front? round stop = some labels →
    ∀ l ∈ labels, t.arrivals[l.id]? = some l.arrival ∧ l.arrival.round = round
      ∧ l.arrival.stop = stop
  touched : ∀ {round id : Nat}, id ∈ t.touchedIn round →
    ∃ a, t.arrivals[id]? = some a ∧ a.round = round ∧ a.iteration = t.iteration
  fresh : ∀ {round stop : Nat} {labels : List Label}, t.front? round stop = some labels →
    ∀ l ∈ labels, l.arrival.iteration = t.iteration → l.id ∈ t.touchedIn round
  past : ∀ {id : Nat} {a : StopArrival}, t.arrivals[id]? = some a → a.iteration ≤ t.iteration
  covered : ∀ {id : Nat} {a : StopArrival}, t.arrivals[id]? = some a →
    ∃ labels, t.front? a.round a.stop = some labels ∧ ∃ l ∈ labels, dominates l.arrival a = true
  distinct : ∀ {id id' : Nat} {a a' : StopArrival}, t.arrivals[id]? = some a →
    t.arrivals[id']? = some a' → a.unlinked = a'.unlinked → id = id'
  rows : t.fronts.size = t.touched.size

theorem front?_round_lt {t : StopTable} {round stop : Nat} {labels : List Label}
    (h : t.front? round stop = some labels) : round < t.fronts.size := by
  simp only [front?, Option.bind_eq_bind, Option.bind_eq_some_iff] at h
  obtain ⟨row, hrow, -⟩ := h
  exact (Array.getElem?_eq_some_iff.mp hrow).1

theorem touchedIn_place (t : StopTable) (a : StopArrival) (labels : List Label) (round : Nat) :
    (t.place a labels).touchedIn round =
      if a.round = round ∧ round < t.touched.size then t.touchedIn round ++ [t.numAccepted]
      else t.touchedIn round := by
  simp only [place, touchedIn, numAccepted, Array.getElem?_modify]
  by_cases hround : a.round = round
  · by_cases hlt : round < t.touched.size <;> simp [hround, hlt]
  · simp [hround]

theorem mem_touchedIn_place {t : StopTable} {a : StopArrival} {labels : List Label}
    {round id : Nat} : id ∈ (t.place a labels).touchedIn round ↔ id ∈ t.touchedIn round
      ∨ ((a.round = round ∧ round < t.touched.size) ∧ id = t.numAccepted) := by
  rw [touchedIn_place]
  split <;> simp [*]

theorem extends_place (t : StopTable) (a : StopArrival) (labels : List Label) :
    t.Extends (t.place a labels) where
  iteration := rfl
  arrivals := by
    intro id b hb
    have hne : id ≠ t.numAccepted := Nat.ne_of_lt (Array.getElem?_eq_some_iff.mp hb).1
    rw [arrivals_place, if_neg hne]
    exact hb

theorem wayOf_place {t : StopTable} (h : t.IsLinked) {b : StopArrival} (hb : t.Supports b)
    (a : StopArrival) (labels : List Label) : (t.place a labels).wayOf b = t.wayOf b :=
  wayOf_of_extends h (t.extends_place a labels) hb

theorem arrivals_place_self (t : StopTable) (a : StopArrival) (labels : List Label) :
    (t.place a labels).arrivals[t.numAccepted]? = some a := by
  rw [arrivals_place, if_pos rfl]

section Place

variable {h : Heading} {compareCost : Bool} {t : StopTable}

/-- An accepted arrival is the new one or was there before. -/
theorem arrivals_place_cases {a b : StopArrival} {labels : List Label} {id : Nat}
    (hb : (t.place a labels).arrivals[id]? = some b) :
    (id = t.numAccepted ∧ b = a) ∨ t.arrivals[id]? = some b := by
  rw [arrivals_place] at hb
  by_cases hid : id = t.numAccepted
  · rw [if_pos hid, Option.some_inj] at hb
    exact Or.inl ⟨hid, hb.symm⟩
  · rw [if_neg hid] at hb
    exact Or.inr hb

theorem isLinked_place (ht : t.IsLinked) {a : StopArrival} (ha : t.Supports a)
    (labels : List Label) : (t.place a labels).IsLinked := by
  intro id b hb previous hprevious
  rcases arrivals_place_cases hb with ⟨rfl, rfl⟩ | hb
  · obtain ⟨c, hc⟩ := ha previous hprevious
    exact (Array.getElem?_eq_some_iff.mp hc).1
  · exact ht id b hb previous hprevious

/-- The front of an arrival after it, in terms of labels. -/
def labelsAfter (t : StopTable) (dominates : StopArrival → StopArrival → Bool)
    (labels : List Label) (a : StopArrival) : List Label :=
  labels.filter (fun l => !dominates a l.arrival) ++ [⟨t.numAccepted, a⟩]

/-- A front after an arrival was placed, if there is one. -/
theorem front?_place_cases {a : StopArrival} {new labels : List Label} {round stop : Nat}
    (hl : (t.place a new).front? round stop = some labels) :
    (a.round = round ∧ a.stop = stop ∧ labels = new)
      ∨ (¬ (a.round = round ∧ a.stop = stop) ∧ t.front? round stop = some labels) := by
  rw [front?_place] at hl
  by_cases hrs : a.round = round ∧ a.stop = stop
  · rw [if_pos hrs, Option.map_eq_some_iff] at hl
    obtain ⟨_, _, hnew⟩ := hl
    exact Or.inl ⟨hrs.1, hrs.2, hnew.symm⟩
  · rw [if_neg hrs] at hl
    exact Or.inr ⟨hrs, hl⟩

theorem mem_labelsAfter {dominates : StopArrival → StopArrival → Bool} {labels : List Label}
    {a : StopArrival} {l : Label} : l ∈ t.labelsAfter dominates labels a ↔
      (l ∈ labels ∧ dominates a l.arrival = false) ∨ l = ⟨t.numAccepted, a⟩ := by
  simp [labelsAfter]

theorem listed_place {dominates : StopArrival → StopArrival → Bool}
    (hlisted : ∀ {round stop : Nat} {labels : List Label}, t.front? round stop = some labels →
      ∀ l ∈ labels, t.arrivals[l.id]? = some l.arrival ∧ l.arrival.round = round
        ∧ l.arrival.stop = stop)
    {a : StopArrival} {old : List Label} (hold : t.front? a.round a.stop = some old)
    {round stop : Nat} {labels : List Label}
    (hl : (t.place a (t.labelsAfter dominates old a)).front? round stop = some labels) :
    ∀ l ∈ labels, (t.place a (t.labelsAfter dominates old a)).arrivals[l.id]? = some l.arrival
      ∧ l.arrival.round = round ∧ l.arrival.stop = stop := by
  have hext := t.extends_place a (t.labelsAfter dominates old a)
  intro l hmem
  rcases front?_place_cases hl with ⟨rfl, rfl, rfl⟩ | ⟨-, hl⟩
  · rcases mem_labelsAfter.mp hmem with ⟨hmem, -⟩ | rfl
    · exact ⟨hext.arrivals (hlisted hold l hmem).1, (hlisted hold l hmem).2⟩
    · exact ⟨arrivals_place_self t a _, rfl, rfl⟩
  · exact ⟨hext.arrivals (hlisted hl l hmem).1, (hlisted hl l hmem).2⟩

theorem covered_place {a b : StopArrival} {old : List Label}
    (hold : t.front? a.round a.stop = some old)
    (hb : ∃ labels, t.front? b.round b.stop = some labels
      ∧ ∃ l ∈ labels, StopArrival.dominates h compareCost l.arrival b = true) :
    ∃ labels,
      (t.place a (t.labelsAfter (StopArrival.dominates h compareCost) old a)).front? b.round b.stop
          = some labels
        ∧ ∃ l ∈ labels, StopArrival.dominates h compareCost l.arrival b = true := by
  obtain ⟨labels, hlabels, l, hl, hdom⟩ := hb
  rw [front?_place]
  by_cases hrs : a.round = b.round ∧ a.stop = b.stop
  · rw [if_pos hrs, ← hrs.1, ← hrs.2, hold]
    rw [← hrs.1, ← hrs.2, hold, Option.some_inj] at hlabels
    subst hlabels
    refine ⟨_, rfl, ?_⟩
    -- a dropped label is dominated by the arrival that dropped it
    by_cases hdrop : StopArrival.dominates h compareCost a l.arrival = true
    · exact ⟨⟨t.numAccepted, a⟩, by simp [labelsAfter], StopArrival.dominates_trans hdrop hdom⟩
    · exact ⟨l, by simp [labelsAfter, hl, hdrop], hdom⟩
  · rw [if_neg hrs]
    exact ⟨labels, hlabels, l, hl, hdom⟩

/-- An arrival that is the same as an accepted one has a rival in its front. -/
theorem Tidy.unlinked_ne (ht : t.Tidy (StopArrival.dominates h compareCost)) {a b : StopArrival}
    {old : List Label} (hold : t.front? a.round a.stop = some old)
    (hnew : ∀ l ∈ old, StopArrival.dominates h compareCost l.arrival a = false) {id : Nat}
    (hb : t.arrivals[id]? = some b) : b.unlinked ≠ a.unlinked := by
  intro hsame
  obtain ⟨labels, hlabels, l, hl, hdom⟩ := ht.covered hb
  have hround : b.round = a.round := (congrArg StopArrival.round hsame :)
  have hstop : b.stop = a.stop := (congrArg StopArrival.stop hsame :)
  rw [hround, hstop, hold, Option.some_inj] at hlabels
  subst hlabels
  have hrival := StopArrival.dominates_of_unlinked_eq hsame hdom
  rw [hnew l hl] at hrival
  cases hrival

theorem tidy_place (ht : t.Tidy (StopArrival.dominates h compareCost)) {a : StopArrival}
    {old : List Label} (hold : t.front? a.round a.stop = some old) (ha : t.Supports a)
    (hiteration : a.iteration = t.iteration)
    (hnew : ∀ l ∈ old, StopArrival.dominates h compareCost l.arrival a = false) :
    (t.place a (t.labelsAfter (StopArrival.dominates h compareCost) old a)).Tidy
      (StopArrival.dominates h compareCost) := by
  have hext := t.extends_place a (t.labelsAfter (StopArrival.dominates h compareCost) old a)
  have hother := fun {id : Nat} {b : StopArrival} (hb : t.arrivals[id]? = some b) =>
    ht.unlinked_ne hold hnew hb
  refine
    { linked := isLinked_place ht.linked ha _
      listed := listed_place ht.listed hold
      touched := ?touched, fresh := ?fresh, past := ?past, covered := ?covered, distinct := ?distinct
      rows := by simpa [place] using ht.rows }
  case touched =>
    intro round id hid
    rcases mem_touchedIn_place.mp hid with hid | ⟨⟨hround, -⟩, rfl⟩
    · obtain ⟨b, hb, hbr, hbi⟩ := ht.touched hid
      exact ⟨b, hext.arrivals hb, hbr, hbi⟩
    · exact ⟨a, arrivals_place_self t a _, hround, hiteration⟩
  case fresh =>
    intro round stop labels hl l hmem hit
    refine mem_touchedIn_place.mpr ?_
    rcases front?_place_cases hl with ⟨rfl, rfl, rfl⟩ | ⟨-, hl⟩
    · rcases mem_labelsAfter.mp hmem with ⟨hmem, -⟩ | rfl
      · exact .inl (ht.fresh hold l hmem hit)
      · exact .inr ⟨⟨rfl, ht.rows ▸ front?_round_lt hold⟩, rfl⟩
    · exact .inl (ht.fresh hl l hmem hit)
  case past =>
    intro id b hb
    rcases arrivals_place_cases hb with ⟨-, rfl⟩ | hb
    · exact Nat.le_of_eq hiteration
    · exact ht.past hb
  case covered =>
    intro id b hb
    rcases arrivals_place_cases hb with ⟨-, rfl⟩ | hb
    · rw [front?_place, if_pos ⟨rfl, rfl⟩, hold]
      exact ⟨_, rfl, ⟨t.numAccepted, b⟩, by simp [labelsAfter], StopArrival.dominates_refl b⟩
    · exact covered_place hold (ht.covered hb)
  case distinct =>
    intro id id' b b' hb hb' hsame
    rcases arrivals_place_cases hb with ⟨hid, hba⟩ | hold₁ <;>
      rcases arrivals_place_cases hb' with ⟨hid', hba'⟩ | hold₂
    · rw [hid, hid']
    · exact absurd (hba ▸ hsame.symm) (hother hold₂)
    · exact absurd (hba' ▸ hsame) (hother hold₁)
    · exact ht.distinct hold₁ hold₂ hsame

end Place

/-- At the beginning of an iteration nothing is new yet. -/
theorem tidy_startIteration {dominates : StopArrival → StopArrival → Bool} {t : StopTable}
    (ht : t.Tidy dominates) : t.startIteration.Tidy dominates where
  linked := ht.linked
  listed := ht.listed
  touched := by
    intro round id hid
    simp only [touchedIn, startIteration, Array.getElem?_map] at hid
    cases h : t.touched[round]? <;> simp [h] at hid
  fresh := by
    intro round stop labels hl l hmem hit
    have hpast := ht.past (ht.listed hl l hmem).1
    simp only [startIteration] at hit
    omega
  past := by
    intro id a ha
    exact Nat.le_succ_of_le (ht.past ha)
  covered := ht.covered
  distinct := ht.distinct
  rows := by simpa [startIteration] using ht.rows

theorem front?_empty (numStops maxRounds round stop : Nat) :
    (empty numStops maxRounds).front? round stop =
      if round < maxRounds + 1 ∧ stop < numStops then some [] else none := by
  simp only [front?, empty, Array.getElem?_replicate]
  by_cases hr : round < maxRounds + 1
  · simp [hr, Array.getElem?_replicate]
  · simp [hr]

theorem eq_nil_of_front?_empty {numStops maxRounds round stop : Nat} {labels : List Label}
    (h : (empty numStops maxRounds).front? round stop = some labels) : labels = [] := by
  rw [front?_empty] at h
  split at h
  · exact (Option.some.inj h).symm
  · cases h

theorem newLabelsAt_eq_ok {t : StopTable} {round stop : Nat} {labels : List Label}
    (h : t.newLabelsAt round stop = .ok labels) :
    ∃ all, t.front? round stop = some all
      ∧ labels = all.filter fun l => l.arrival.iteration == t.iteration := by
  unfold newLabelsAt front at h
  cases hl : t.front? round stop with
  | none => simp [hl, bind, Except.bind] at h
  | some all =>
      simp only [hl, Fallible.bind_eq_ok, Fallible.pure_eq_ok, Except.ok.injEq,
        exists_eq_left'] at h
      exact ⟨all, rfl, h.symm⟩

theorem tidy_empty (dominates : StopArrival → StopArrival → Bool) (numStops maxRounds : Nat) :
    (empty numStops maxRounds).Tidy dominates := by
  have hnone : ∀ {id : Nat} {a : StopArrival},
      (empty numStops maxRounds).arrivals[id]? ≠ some a := by
    simp [empty]
  refine
    { linked := fun id a ha => absurd ha hnone
      listed := ?_, touched := ?_, fresh := ?_
      past := fun ha => absurd ha hnone
      covered := fun ha => absurd ha hnone
      distinct := fun ha => absurd ha hnone
      rows := by simp [empty] }
  · intro round stop labels hl l hmem
    simp [eq_nil_of_front?_empty hl] at hmem
  · intro round id hid
    simp only [touchedIn, empty, Array.getElem?_replicate] at hid
    split at hid <;> simp at hid
  · intro round stop labels hl l hmem
    simp [eq_nil_of_front?_empty hl] at hmem

end StopTable
end JourneyPlanner
