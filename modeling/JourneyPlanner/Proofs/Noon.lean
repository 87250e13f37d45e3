import Mathlib.Data.List.Count
import Mathlib.Data.List.Nodup
import JourneyPlanner.Calendar.ServiceDay

/-!
Noon of a date in the known time zones. Clocks are never changed between the first and the
last instant that could be noon of a date, so local clocks show noon once on every date
that they show at all. Within a date they are set back or ahead by an hour at most.
-/

namespace JourneyPlanner

theorem Season.mem_changesIn {s : Season} {year : Int} {c : OffsetChange}
    (h : c ∈ s.changesIn year) :
    c = ⟨s.starts.instantIn year, s.standard + s.saving⟩
      ∨ c = ⟨s.ends.instantIn year, s.standard⟩ := by
  unfold Season.changesIn at h
  grind

theorem YearlySunday.instantIn_emod (s : YearlySunday) (year : Int) :
    s.instantIn year % 86400 = s.second % 86400 := by
  unfold YearlySunday.instantIn
  exact Int.mul_add_emod_self_right ..

namespace Zone

variable {z : Zone} {t t' clock day : Int} {os : List Int}

section Changes

/-- The listed changes and those of a year and the years beside it. -/
def changesAround (z : Zone) (year : Int) : List OffsetChange :=
  z.changes ++
    match z.season with
    | none => []
    | some s => s.changesIn (year - 1) ++ s.changesIn year ++ s.changesIn (year + 1)

/-- The seconds of the day, in universal time, at which clocks are changed. -/
def changeSeconds (z : Zone) : List Int :=
  z.changes.map (fun c => c.instant % 86400) ++
    match z.season with
    | none => []
    | some s => [s.starts.second % 86400, s.ends.second % 86400]

theorem changesBefore_eq (z : Zone) (t : Int) : z.changesBefore t =
    (z.changesAround (CivilDate.ofDayNumber (t / 86400)).year).filter
      fun c => decide (c.instant ≤ t) :=
  rfl

theorem mem_changesAround {year : Int} {c : OffsetChange} (h : c ∈ z.changesAround year) :
    c ∈ z.changes ∨ ∃ s year', z.season = some s ∧ c ∈ s.changesIn year' := by
  unfold changesAround at h
  obtain h | h := List.mem_append.mp h
  · exact .inl h
  · cases hseason : z.season with
    | none => simp [hseason] at h
    | some s =>
        simp only [hseason, List.mem_append] at h
        obtain (h | h) | h := h <;> exact .inr ⟨s, _, rfl, h⟩

theorem second_mem_changeSeconds {year : Int} {c : OffsetChange} (h : c ∈ z.changesAround year) :
    c.instant % 86400 ∈ z.changeSeconds := by
  unfold changeSeconds
  obtain h | ⟨s, year', hseason, h⟩ := mem_changesAround h
  · exact List.mem_append_left _ (List.mem_map_of_mem h)
  · rw [hseason]
    obtain rfl | rfl := Season.mem_changesIn h <;> simp [YearlySunday.instantIn_emod]

theorem offsetAt_mem (z : Zone) (t : Int) : z.offsetAt t ∈ z.offsets := by
  simp only [offsets, List.mem_eraseDups, List.mem_append, List.mem_cons, List.mem_map]
  unfold offsetAt
  cases hlast : (z.changesBefore t).getLast? with
  | none => exact .inl (.inl rfl)
  | some c =>
      have hc := List.mem_of_getLast? hlast
      rw [changesBefore_eq] at hc
      obtain h | ⟨s, year, hseason, h⟩ := mem_changesAround (List.mem_of_mem_filter hc)
      · exact .inl (.inr ⟨c, h, rfl⟩)
      · rw [hseason]
        obtain rfl | rfl := Season.mem_changesIn h <;> simp

/-- Two instants of one day in universal time are at the same offset if clocks are never
changed between their times of day. -/
theorem offsetAt_eq_of_sameDay (hday : t / 86400 = t' / 86400)
    (hquiet : ∀ k ∈ z.changeSeconds, k ≤ t % 86400 ↔ k ≤ t' % 86400) :
    z.offsetAt t = z.offsetAt t' := by
  have hchanges : z.changesBefore t = z.changesBefore t' := by
    rw [changesBefore_eq, changesBefore_eq, hday]
    refine List.filter_congr fun c hc => decide_eq_decide.mpr ?_
    have hsecond := hquiet _ (second_mem_changeSeconds hc)
    omega
  rw [offsetAt, offsetAt, hchanges]

end Changes

section Noon

theorem instantsAt_eq_singleton (hnodup : z.offsets.Nodup) {o : Int} (ho : o ∈ z.offsets)
    (honly : ∀ o' ∈ z.offsets, z.offsetAt (clock - o') = o' ↔ o' = o) :
    z.instantsAt clock = [clock - o] := by
  have hshows : ∀ o' ∈ z.offsets, ((fun t => t + z.offsetAt t == clock) ∘ fun o => clock - o) o'
      = decide (o' = o) := by
    intro o' ho'
    have hsum : clock - o' + z.offsetAt (clock - o') = clock ↔ z.offsetAt (clock - o') = o' := by
      grind
    exact decide_eq_decide.mpr (hsum.trans (honly o' ho'))
  rw [instantsAt, List.filter_map, List.filter_congr hshows, List.filter_eq,
    List.count_eq_one_of_mem hnodup ho, List.replicate_one, List.map_singleton]

/-- Clocks at these offsets differ by an hour at most and show noon within one day of
universal time, with no change in between. -/
def IsQuiet (z : Zone) (os : List Int) : Prop :=
  z.offsets.Nodup ∧ os ⊆ z.offsets ∧ ∀ o ∈ os, ∀ o' ∈ os, o ≤ o' + 3600
    ∧ (43200 - o) / 86400 = (43200 - o') / 86400
    ∧ ∀ k ∈ z.changeSeconds, k ≤ (43200 - o) % 86400 ↔ k ≤ (43200 - o') % 86400

instance (z : Zone) (os : List Int) : Decidable (z.IsQuiet os) :=
  inferInstanceAs (Decidable (_ ∧ _ ∧ _))

/-- A zone is at none but these offsets at any instant that local clocks show or could show
as noon of a day. -/
structure KeepsTo (z : Zone) (os : List Int) (day : Int) : Prop where
  quiet : z.IsQuiet os
  shown : ∀ t : Int, (t + z.offsetAt t) / 86400 = day → z.offsetAt t ∈ os
  noon : ∀ o ∈ z.offsets, z.offsetAt (day * 86400 + 43200 - o) ∈ os

theorem IsQuiet.keepsTo (h : z.IsQuiet z.offsets) (day : Int) : z.KeepsTo z.offsets day :=
  ⟨h, fun _ _ => offsetAt_mem .., fun _ _ => offsetAt_mem ..⟩

theorem KeepsTo.noon_unique (h : z.KeepsTo os day) : ∃ o ∈ os,
    z.instantsAt (day * 86400 + 43200) = [day * 86400 + 43200 - o] := by
  obtain ⟨hnodup, hsub, hquiet⟩ := h.quiet
  have hinitial := h.noon _ (offsetAt_mem z 0)
  obtain ⟨o, ho⟩ : ∃ o, z.offsetAt (day * 86400 + 43200 - z.offsetAt (day * 86400 + 43200
    - z.offsetAt 0)) = o := ⟨_, rfl⟩
  have hmem : o ∈ os := ho ▸ h.noon _ (hsub hinitial)
  have hsame : ∀ o' ∈ os, z.offsetAt (day * 86400 + 43200 - o') = o := by
    intro o' ho'
    rw [← ho]
    obtain ⟨-, hday, hseconds⟩ := hquiet o' ho' _ hinitial
    have hdiv : ∀ o : Int, (day * 86400 + 43200 - o) / 86400 = day + (43200 - o) / 86400 := by omega
    have hmod : ∀ o : Int, (day * 86400 + 43200 - o) % 86400 = (43200 - o) % 86400 := by omega
    refine offsetAt_eq_of_sameDay (by rw [hdiv, hdiv, hday]) fun k hk => ?_
    rw [hmod, hmod]
    exact hseconds k hk
  refine ⟨o, hmem, instantsAt_eq_singleton hnodup (hsub hmem) fun o' ho' => ⟨fun hshows => ?_, ?_⟩⟩
  · exact hshows.symm.trans (hsame o' (hshows ▸ h.noon o' ho'))
  · rintro rfl
    exact hsame o' hmem

end Noon

section DateLine

/-- Without a rule for each year the last of the listed changes counts. -/
theorem changesBefore_of_listed (hseason : z.season = none) {first last : List OffsetChange}
    (hchanges : z.changes = first ++ last) : z.changesBefore t =
      first.filter (fun c => decide (c.instant ≤ t)) ++
        last.filter fun c => decide (c.instant ≤ t) := by
  rw [changesBefore_eq, changesAround, hseason, hchanges, List.append_nil, List.filter_append]

theorem offsetAt_of_before (hseason : z.season = none) (first last : List OffsetChange)
    (hchanges : z.changes = first ++ last) (hlater : ∀ c ∈ last, t < c.instant) :
    z.offsetAt t ∈ z.initial :: first.map (·.offset) := by
  have hnone : last.filter (fun c => decide (c.instant ≤ t)) = [] :=
    List.filter_eq_nil_iff.mpr fun c hc => by simpa using hlater c hc
  rw [offsetAt, changesBefore_of_listed hseason hchanges, hnone, List.append_nil]
  cases hlast : (first.filter fun c => decide (c.instant ≤ t)).getLast? with
  | none => exact List.mem_cons_self
  | some c =>
      have hc := List.mem_of_mem_filter (List.mem_of_getLast? hlast)
      exact List.mem_cons_of_mem _ (List.mem_map_of_mem hc)

theorem offsetAt_of_after (hseason : z.season = none) (first : List OffsetChange)
    (c : OffsetChange) (last : List OffsetChange) (hchanges : z.changes = first ++ c :: last)
    (hpassed : c.instant ≤ t) : z.offsetAt t ∈ (c :: last).map (·.offset) := by
  have hkept : (c :: last).filter (fun c => decide (c.instant ≤ t))
      = c :: last.filter fun c => decide (c.instant ≤ t) :=
    List.filter_cons_of_pos (by simpa using hpassed)
  rw [offsetAt, changesBefore_of_listed hseason hchanges, hkept, List.getLast?_append,
    List.getLast?_cons]
  refine List.mem_map_of_mem ?_
  cases hlast : (last.filter fun c => decide (c.instant ≤ t)).getLast? with
  | none => exact List.mem_cons_self
  | some c' => exact List.mem_cons_of_mem _ (List.mem_of_mem_filter (List.mem_of_getLast? hlast))

/-- When Apia went over to the other side of the date line. -/
def crossing : Int := 1325239200

/-- Offsets of Apia on the one side and on the other side of the date line. -/
def eastern : List Int := [-39600, -36000]

def western : List Int := [50400, 46800]

theorem apia_offsetAt_of_lt (ht : t < crossing) : apia.offsetAt t ∈ eastern := by
  have hmem := offsetAt_of_before (z := apia) rfl (apia.changes.take 3) (apia.changes.drop 3) rfl
    fun c hc => Int.lt_of_lt_of_le ht
      ((by decide : ∀ c ∈ apia.changes.drop 3, crossing ≤ c.instant) c hc)
  exact (by decide : ∀ o ∈ apia.initial :: (apia.changes.take 3).map (·.offset), o ∈ eastern) _ hmem

theorem apia_offsetAt_of_le (ht : crossing ≤ t) : apia.offsetAt t ∈ western := by
  have hmem := offsetAt_of_after (z := apia) rfl (apia.changes.take 3) ⟨crossing, 50400⟩
    (apia.changes.drop 4) rfl ht
  exact (by decide : ∀ o ∈ (⟨crossing, 50400⟩ :: apia.changes.drop 4).map (·.offset),
    o ∈ western) _ hmem

/-- At the date line local clocks went on by a full day. -/
theorem apia_clock_of_le (ht : crossing ≤ t) : crossing + 50400 ≤ t + apia.offsetAt t := by
  have hwest := apia_offsetAt_of_le ht
  by_cases hsoon : t < 1333202400
  · have hmem := offsetAt_of_before (z := apia) rfl (apia.changes.take 4) (apia.changes.drop 4) rfl
      fun c hc => Int.lt_of_lt_of_le hsoon
        ((by decide : ∀ c ∈ apia.changes.drop 4, 1333202400 ≤ c.instant) c hc)
    have hoffset := (by decide : ∀ o ∈ apia.initial :: (apia.changes.take 4).map (·.offset),
      o ∈ western → o = 50400) _ hmem hwest
    rw [hoffset]
    exact Int.add_le_add_right ht _
  · have hleast := (by decide : ∀ o ∈ western, 46800 ≤ o) _ hwest
    unfold crossing at *
    omega

theorem apia_clock_of_lt (ht : t < crossing) : t + apia.offsetAt t < crossing - 36000 := by
  have hgreatest := (by decide : ∀ o ∈ eastern, o ≤ -36000) _ (apia_offsetAt_of_lt ht)
  unfold crossing at *
  omega

theorem apia_keepsTo (t : Int) : ∃ os, apia.KeepsTo os ((t + apia.offsetAt t) / 86400) := by
  have hbounds : ∀ o ∈ apia.offsets, -39600 ≤ o ∧ o ≤ 50400 := by decide
  by_cases ht : t < crossing
  · have hclock := apia_clock_of_lt ht
    refine ⟨eastern, by decide, fun t' ht' => ?_, fun o ho => ?_⟩
    · refine apia_offsetAt_of_lt (Int.not_le.mp fun hle => ?_)
      have hclock' := apia_clock_of_le hle
      unfold crossing at *
      omega
    · have hleast := (hbounds o ho).1
      refine apia_offsetAt_of_lt ?_
      unfold crossing at *
      omega
  · have hclock := apia_clock_of_le (Int.not_lt.mp ht)
    refine ⟨western, by decide, fun t' ht' => ?_, fun o ho => ?_⟩
    · refine apia_offsetAt_of_le (Int.not_lt.mp fun hlt => ?_)
      have hclock' := apia_clock_of_lt hlt
      unfold crossing at *
      omega
    · have hgreatest := (hbounds o ho).2
      refine apia_offsetAt_of_le ?_
      unfold crossing at *
      omega

end DateLine

theorem keepsTo_of_mem (hz : z ∈ all) (t : Int) :
    ∃ os, z.KeepsTo os ((t + z.offsetAt t) / 86400) := by
  simp only [all, List.mem_cons, List.not_mem_nil, or_false] at hz
  obtain rfl | rfl | rfl | rfl | rfl | rfl := hz
  · exact ⟨_, IsQuiet.keepsTo (by decide) _⟩
  · exact ⟨_, IsQuiet.keepsTo (by decide) _⟩
  · exact ⟨_, IsQuiet.keepsTo (by decide) _⟩
  · exact ⟨_, IsQuiet.keepsTo (by decide) _⟩
  · exact ⟨_, IsQuiet.keepsTo (by decide) _⟩
  · exact apia_keepsTo t

end Zone
end JourneyPlanner
