import JourneyPlanner.Proofs.Answering
import JourneyPlanner.Proofs.EarliestArrival
import JourneyPlanner.Proofs.TableHistory

/-!
What is true of the tables of a search at any time. Fronts hold arrivals of their round and
stop none of which dominates another one, and as long as an iteration lasts nothing it found is
dominated by a lower round. Ids are never given away again: what one denotes it denotes for
good, and what was dropped stays dropped.
-/

namespace JourneyPlanner

namespace StopTable

/-- A table whose fronts and links are as they should be. -/
structure IsSound (dominates : StopArrival → StopArrival → Bool) (t : StopTable) : Prop where
  front : ∀ {round stop : Nat} {labels : List Label}, t.front? round stop = some labels →
    Pareto.IsFront (fun l l' => dominates l.arrival l'.arrival) labels
  listed : ∀ {round stop : Nat} {labels : List Label}, t.front? round stop = some labels →
    ∀ l ∈ labels, t.arrivals[l.id]? = some l.arrival ∧ l.arrival.round = round
      ∧ l.arrival.stop = stop
  below : ∀ {round lower stop : Nat} {labels rivals : List Label}, lower < round →
    t.front? round stop = some labels → t.front? lower stop = some rivals →
      ∀ l ∈ labels, l.arrival.iteration = t.iteration → ∀ rival ∈ rivals,
        dominates rival.arrival l.arrival = false
  follows : ∀ {id : Nat} {a : StopArrival}, t.arrivals[id]? = some a → t.Follows id a

/-- The table after one step: nothing happened to it, an iteration began, or one arrival was placed
in its front. -/
inductive IsNext (dominates : StopArrival → StopArrival → Bool) (t : StopTable) : StopTable → Prop
  | same : IsNext dominates t t
  | begun : IsNext dominates t t.startIteration
  | placed {a : StopArrival} {old : List Label} (hold : t.front? a.round a.stop = some old) :
      IsNext dominates t (t.place a (t.labelsAfter dominates old a))

/-- A later table: ids denote what they denoted, and what was dropped is not current again. -/
structure Precedes (t t' : StopTable) : Prop where
  kept : ∀ {id : Nat} {a : StopArrival}, t.arrivals[id]? = some a → t'.arrivals[id]? = some a
  gone : ∀ {id : Nat}, id < t.numAccepted → t.isCurrent id = false → t'.isCurrent id = false

variable {dominates : StopArrival → StopArrival → Bool} {t t' t'' : StopTable}

theorem Precedes.trans (h : t.Precedes t') (h' : t'.Precedes t'') : t.Precedes t'' where
  kept ha := h'.kept (h.kept ha)
  gone hid hnot := by
    have hid' := (Array.getElem?_eq_some_iff.mp (h.kept (Array.getElem?_eq_getElem hid))).1
    exact h'.gone hid' (h.gone hid hnot)

theorem touchedIn_startIteration (t : StopTable) (round : Nat) :
    t.startIteration.touchedIn round = [] := by
  simp only [touchedIn, startIteration, Array.getElem?_map]
  cases t.touched[round]? <;> rfl

/-- Nothing is of an iteration that has just begun. -/
theorem IsSound.startIteration (h : t.IsSound dominates) (ht : t.Tidy dominates) :
    t.startIteration.IsSound dominates where
  front := h.front
  listed := h.listed
  below _ hlabels _ l hl hnow := by
    have hpast := ht.past (h.listed hlabels l hl).1
    simp only [StopTable.startIteration] at hnow
    omega
  follows := h.follows

section Place

variable {a : StopArrival} {old : List Label} (hold : t.front? a.round a.stop = some old)

include hold in
/-- What was dropped is not put back with a new arrival. -/
theorem precedes_place : t.Precedes (t.place a (t.labelsAfter dominates old a)) where
  kept := (t.extends_place a _).arrivals
  gone {id} hid hnot := by
    have hne : id ≠ t.numAccepted := Nat.ne_of_lt hid
    unfold isCurrent at hnot ⊢
    rw [arrivals_place, if_neg hne]
    cases hb : t.arrivals[id]? with
    | none => rfl
    | some b =>
        simp only [hb, List.any_eq_false, beq_iff_eq] at hnot ⊢
        rw [front?_place]
        by_cases hplace : a.round = b.round ∧ a.stop = b.stop
        · rw [← hplace.1, ← hplace.2, hold, Option.getD_some] at hnot
          rw [if_pos hplace, ← hplace.1, ← hplace.2, hold]
          intro l hl
          rcases List.mem_append.mp hl with hl | hl
          · exact hnot l (List.mem_of_mem_filter hl)
          · rw [List.mem_singleton.mp hl]
            exact hne.symm
        · rw [if_neg hplace]
          exact hnot

include hold in
/-- Nothing lower or in its front dominates an accepted arrival, and higher rounds hold nothing
of its iteration yet. -/
theorem IsSound.place (h : t.IsSound dominates) (ht : t.Tidy dominates)
    (hquiet : ∀ round, a.round < round → t.touchedIn round = [])
    (hfollows : t.Follows t.numAccepted a)
    (hnone : (t.rivalBelow? dominates a).or (old.find? fun l => dominates l.arrival a) = none) :
    (t.place a (t.labelsAfter dominates old a)).IsSound dominates := by
  have hext := t.extends_place a (t.labelsAfter dominates old a)
  obtain ⟨hbelow, hrival⟩ := Option.or_eq_none_iff.mp hnone
  have hrival : Pareto.rival? (fun l l' : Label => dominates l.arrival l'.arrival) old
      ⟨t.numAccepted, a⟩ = none := hrival
  have hlabels := (Pareto.insert_of_none hrival).symm
  refine ⟨?front, ?listed, ?below, ?follows⟩
  case front =>
    intro round stop labels hl
    rcases front?_place_cases hl with ⟨rfl, rfl, rfl⟩ | ⟨-, hl⟩
    · rw [labelsAfter, hlabels]
      exact Pareto.isFront_insert (h.front hold) _
    · exact h.front hl
  case listed =>
    intro round stop labels hl
    exact listed_place h.listed hold hl
  case below =>
    intro round lower stop labels rivals hlt hl hr l hmem hnow rival hrivals
    rcases front?_place_cases hl with ⟨rfl, rfl, rfl⟩ | ⟨-, hl⟩
    · rcases front?_place_cases hr with ⟨heq, -, -⟩ | ⟨-, hr⟩
      · exact absurd heq.symm (Nat.ne_of_lt hlt)
      · rcases mem_labelsAfter.mp hmem with ⟨hmem, -⟩ | rfl
        · exact h.below hlt hold hr l hmem hnow rival hrivals
        · have hrow := List.findSome?_eq_none_iff.mp hbelow lower (List.mem_range.mpr hlt)
          rw [hr, Option.getD_some] at hrow
          simpa using List.find?_eq_none.mp hrow rival hrivals
    · rcases front?_place_cases hr with ⟨rfl, rfl, rfl⟩ | ⟨-, hr⟩
      · -- the round of the label is still to come in this iteration
        have htouched := ht.fresh hl l hmem hnow
        rw [hquiet round hlt] at htouched
        exact absurd htouched (List.not_mem_nil)
      · exact h.below hlt hl hr l hmem hnow rival hrivals
  case follows =>
    intro id b hb
    rcases arrivals_place_cases hb with ⟨rfl, rfl⟩ | hb
    · exact hfollows.of_extends hext
    · exact (h.follows hb).of_extends hext

end Place

theorem IsNext.precedes (h : IsNext dominates t t') : t.Precedes t' := by
  cases h with
  | same | begun => exact ⟨id, fun _ h => h⟩
  | placed hold => exact precedes_place hold

theorem isSound_empty (dominates : StopArrival → StopArrival → Bool) (numStops maxRounds : Nat) :
    (empty numStops maxRounds).IsSound dominates := by
  refine ⟨fun hl => ?_, fun hl l hmem => ?_, fun _ hl _ l hmem => ?_, fun ha => ?_⟩
  · rw [eq_nil_of_front?_empty hl]
    exact .nil
  · simp [eq_nil_of_front?_empty hl] at hmem
  · simp [eq_nil_of_front?_empty hl] at hmem
  · simp [empty] at ha

end StopTable

namespace Search

variable {s : Search} {x y : Moment} {ts : List StopTable}

/-- Between turns: the table is sound, and rounds to come have found nothing in this iteration. -/
structure Moment.IsSound (s : Search) (x : Moment) : Prop where
  tidy : s.Tidy x.progress
  table : x.progress.table.IsSound s.dominates
  quiet : ∀ {n round : Nat}, x.round? = some n → n < round → x.progress.table.touchedIn round = []

theorem isSound_start (s : Search) (times : List Time) :
    Moment.IsSound s ⟨times, none, s.start⟩ where
  tidy := ⟨StopTable.tidy_empty .., by simp [start]⟩
  table := StopTable.isSound_empty ..
  quiet hround := by cases hround

/-- One turn: the table stays sound, and is passed through if anything happens to it. -/
theorem Turn.keepsSound (h : Turn s x ts y) (hx : x.IsSound s) :
    y.IsSound s ∧ ((ts = [] ∧ y.progress.table = x.progress.table)
      ∨ (ts = [y.progress.table]
        ∧ StopTable.IsNext s.dominates x.progress.table y.progress.table)) := by
  cases h with
  | begin time times round? p =>
      refine ⟨⟨⟨StopTable.tidy_startIteration hx.tidy.table, hx.tidy.destination⟩,
        hx.table.startIteration hx.tidy.table, fun _ _ => ?_⟩, Or.inr ⟨rfl, .begun⟩⟩
      exact StopTable.touchedIn_startIteration _ _
  | @arrival times p p' a result hfollows hiteration hadd =>
      have htidy := (addArrival_shows hx.tidy hfollows.supports hiteration hadd).1
      have hquiet : ∀ {round : Nat}, a.round < round → p.table.touchedIn round = [] :=
        fun hlt => hx.quiet rfl hlt
      rcases table_of_addArrival hadd with hsame | ⟨old, hold, hnone, hplaced⟩
      · refine ⟨⟨htidy, hsame ▸ hx.table, fun hround hlt => ?_⟩, Or.inr ⟨rfl, hsame ▸ .same⟩⟩
        rw [hsame]
        exact hx.quiet hround hlt
      · refine ⟨⟨htidy, ?_, fun hround hlt => ?_⟩, Or.inr ⟨rfl, hplaced ▸ .placed hold⟩⟩
        · rw [hplaced]
          exact hx.table.place hold hx.tidy.table (fun _ => hquiet) hfollows hnone
        · rw [Option.some_inj] at hround
          subst hround
          rw [hplaced, StopTable.touchedIn_place, if_neg fun hlast => Nat.ne_of_lt hlt hlast.1]
          exact hquiet hlt
  | again times round p => exact ⟨hx, Or.inr ⟨rfl, .same⟩⟩
  | @journey times round p d hknown =>
      obtain ⟨htidy, hsame, -⟩ := addJourney_shows hx.tidy hknown
      refine ⟨⟨htidy, hsame ▸ hx.table, fun hround hlt => ?_⟩, Or.inl ⟨rfl, hsame⟩⟩
      rw [hsame]
      exact hx.quiet hround hlt
  | count highestRound checks =>
      exact ⟨⟨⟨hx.tidy.table, hx.tidy.destination⟩, hx.table, hx.quiet⟩, Or.inl ⟨rfl, rfl⟩⟩
  | next times round p =>
      refine ⟨⟨hx.tidy, hx.table, fun hround hlt => ?_⟩, Or.inl ⟨rfl, rfl⟩⟩
      rw [Option.some_inj] at hround
      exact hx.quiet rfl (by omega)

/-- A sequence of turns: all tables on it are sound, and each is the next one after another. -/
theorem Turns.keepsSound (h : Turns s x ts y) (hx : x.IsSound s) :
    (x.progress.table :: ts).getLast? = some y.progress.table
      ∧ (∀ t ∈ x.progress.table :: ts, t.IsSound s.dominates)
      ∧ (x.progress.table :: ts).IsChain (StopTable.IsNext s.dominates) := by
  induction h with
  | stay x => exact ⟨rfl, by simpa using hx.table, .singleton _⟩
  | @turn x y z ts us hturn _ ih =>
      obtain ⟨hy, htables⟩ := hturn.keepsSound hx
      obtain ⟨hlast, hsound, hchain⟩ := ih hy
      rcases htables with ⟨rfl, hsame⟩ | ⟨rfl, hnext⟩
      · rw [List.nil_append, ← hsame]
        exact ⟨hlast, hsound, hchain⟩
      · refine ⟨?_, List.forall_mem_cons.mpr ⟨hx.table, hsound⟩, .cons_cons hnext hchain⟩
        rw [List.singleton_append, List.getLast?_cons, hlast]
        rfl

end Search

namespace Router

variable {x : Router} {r : Request} {watch : Option Watch} {supervisor : Supervisor} {s : Search}

/-- However a search goes and wherever it is stopped, the tables it passes through lead step by step
to the one it ends with; each of them is sound and precedes all later ones. -/
theorem tables_isSound (hx : x.Deployed) (h : x.search r watch supervisor = .ok s) :
    ∃ status p, s.run = .ok (status, p) ∧ s.tables.head? = some s.start.table
      ∧ s.tables.getLast? = some p.table ∧ s.tables.IsChain (StopTable.IsNext s.dominates)
      ∧ (∀ t ∈ s.tables, t.IsSound s.dominates) ∧ s.tables.Pairwise StopTable.Precedes := by
  obtain ⟨status, p, hrun, -⟩ := Search.run_succeeds (hx.wellFormed h) (hx.hasViews h)
  obtain ⟨rest, last?, hturns, -⟩ := Search.turns_run hrun
  obtain ⟨hlast, hsound, hchain⟩ := hturns.keepsSound (Search.isSound_start s s.times)
  have : Trans StopTable.Precedes StopTable.Precedes StopTable.Precedes := ⟨.trans⟩
  refine ⟨status, p, hrun, rfl, hlast, hchain, hsound, ?_⟩
  exact (hchain.imp fun _ _ hnext => StopTable.IsNext.precedes hnext).pairwise

/-- What the third of four iterations begins with gives way to an earlier arrival in the last. -/
theorem feederLine_tables : ∃ s status p,
    FeederLine.router.search FeederLine.request none {} = .ok s ∧ s.run = .ok (status, p)
      ∧ p.table.iteration = 4 ∧ p.table.numAccepted = 10 ∧ p.table.isCurrent 8 = false
      ∧ s.tables.length = 17 ∧ s.tables.getLast? = some p.table
      ∧ (∀ t ∈ s.tables, t.IsSound s.dominates) ∧ s.tables.Pairwise StopTable.Precedes := by
  have hany : (FeederLine.router.search FeederLine.request none {}).toOption.any (fun s =>
      s.run.toOption.any fun a => decide (a.2.table.iteration = 4 ∧ a.2.table.numAccepted = 10
        ∧ a.2.table.isCurrent 8 = false ∧ s.tables.length = 17)) = true := by
    decide +kernel
  obtain ⟨s, hsearch, hrun⟩ := Fallible.any_toOption.mp hany
  obtain ⟨⟨status, p⟩, hrun, hfacts⟩ := Fallible.any_toOption.mp hrun
  obtain ⟨hiteration, haccepted, hgone, hlength⟩ := of_decide_eq_true hfacts
  obtain ⟨status', p', hrun', -, hlast, -, hsound, hordered⟩ :=
    tables_isSound FeederLine.router_deployed hsearch
  obtain ⟨rfl, rfl⟩ := Prod.mk.inj (Except.ok.inj (hrun.symm.trans hrun'))
  exact ⟨s, status, p, hsearch, hrun, hiteration, haccepted, hgone, hlength, hlast, hsound,
    hordered⟩

end Router
end JourneyPlanner
