import Mathlib.Tactic.IntervalCases
import Mathlib.Tactic.SplitIfs
import JourneyPlanner.Calendar.Date
import JourneyPlanner.Proofs.Numerals

/-!
Days and civil dates. Every day is the number of its civil date, which is valid, and every
date is read back from its text.
-/

namespace JourneyPlanner

/-- A day by its cycle of 400 years, the century in it, the four years in that, the year in
these and the day in that year. Years start in March, so that a leap day ends its year. -/
structure YearDay where
  cycle : Int
  century : Int
  olympiad : Int
  year : Int
  day : Int

namespace YearDay

structure IsValid (p : YearDay) : Prop where
  century : 0 ≤ p.century ∧ p.century ≤ 3
  olympiad : 0 ≤ p.olympiad ∧ p.olympiad ≤ 24
  year : 0 ≤ p.year ∧ p.year ≤ 3
  day : 0 ≤ p.day ∧ p.day ≤ 365
  leapDay : p.day = 365 → p.year = 3 ∧ (p.olympiad ≤ 23 ∨ p.century = 3)

/-- Days since the first of March of the year 0. -/
def number (p : YearDay) : Int :=
  146097 * p.cycle + 36524 * p.century + 1461 * p.olympiad + 365 * p.year + p.day

def yearOfCycle (p : YearDay) : Int :=
  100 * p.century + 4 * p.olympiad + p.year

/-- Months since March. -/
def month (p : YearDay) : Int :=
  (5 * p.day + 2) / 153

variable {p : YearDay}

theorem exists_of_number (n : Int) : ∃ p : YearDay, p.IsValid ∧ p.number = n := by
  -- the last century of a cycle and the last year of four may be a day longer
  obtain ⟨century, hcentury⟩ : ∃ c, c = min (n % 146097 / 36524) 3 := ⟨_, rfl⟩
  obtain ⟨rest, hrest⟩ : ∃ r, r = n % 146097 - 36524 * century := ⟨_, rfl⟩
  obtain ⟨year, hyear⟩ : ∃ y, y = min (rest % 1461 / 365) 3 := ⟨_, rfl⟩
  refine ⟨⟨n / 146097, century, rest / 1461, year, rest % 1461 - 365 * year⟩, ?_, ?_⟩
  · constructor <;> dsimp only <;> omega
  · simp only [number]
    omega

theorem cycle_of_number (hp : p.IsValid) {d : Int} (hd : d = p.number - 146097 * p.cycle) :
    p.number / 146097 = p.cycle ∧ p.number % 146097 = d := by
  obtain ⟨hcentury, holympiad, hyear, hday, hleap⟩ := hp
  simp only [number] at *
  omega

theorem yearOfCycle_of_number (hp : p.IsValid) {d : Int} (hd : d = p.number - 146097 * p.cycle) :
    (d - d / 1460 + d / 36524 - d / 146096) / 365 = p.yearOfCycle := by
  obtain ⟨hcentury, holympiad, hyear, hday, hleap⟩ := hp
  simp only [number, yearOfCycle] at *
  have hcenturies : d / 36524 = p.century ∨ d / 36524 = p.century + 1 := by omega
  have hyears : d / 1460 = 25 * p.century + p.olympiad
      ∨ d / 1460 = 25 * p.century + p.olympiad + 1 := by omega
  omega

theorem daysBefore_yearOfCycle (hp : p.IsValid) :
    365 * p.yearOfCycle + p.yearOfCycle / 4 - p.yearOfCycle / 100
      = p.number - 146097 * p.cycle - p.day := by
  obtain ⟨hcentury, holympiad, hyear, hday, hleap⟩ := hp
  have hfours : p.yearOfCycle / 4 = 25 * p.century + p.olympiad := by
    simp only [yearOfCycle]
    omega
  have hhundreds : p.yearOfCycle / 100 = p.century := by
    simp only [yearOfCycle]
    omega
  rw [hfours, hhundreds]
  simp only [number, yearOfCycle]
  omega

theorem month_bounds (hp : p.IsValid) : 0 ≤ p.month ∧ p.month ≤ 11 := by
  have hday := hp.day
  unfold month
  omega

/-- The civil date of a day. -/
def civil (p : YearDay) : CivilDate where
  year := 400 * p.cycle + p.yearOfCycle + if p.month < 10 then 0 else 1
  month := (if p.month < 10 then p.month + 3 else p.month - 9).toNat
  day := (p.day - (153 * p.month + 2) / 5 + 1).toNat

theorem ofDayNumber_eq (hp : p.IsValid) {n : Int} (hn : n + 719468 = p.number) :
    CivilDate.ofDayNumber n = p.civil := by
  obtain ⟨hcycle, hday⟩ := cycle_of_number hp rfl
  have hrest : p.number - 146097 * p.cycle - (p.number - 146097 * p.cycle - p.day) = p.day := by
    omega
  have hmonth : (5 * p.day + 2) / 153 = p.month := rfl
  have hbounds := month_bounds hp
  simp only [CivilDate.ofDayNumber, hn, hcycle, hday, yearOfCycle_of_number hp rfl,
    daysBefore_yearOfCycle hp, hrest, hmonth, civil, CivilDate.mk.injEq, and_true]
  split_ifs <;> omega

theorem isLeapYear_of_leapDay (hp : p.IsValid) (hday : p.day = 365) :
    CivilDate.isLeapYear (400 * p.cycle + p.yearOfCycle + 1) = true := by
  have hleap := hp.leapDay hday
  have hcentury := hp.century
  have holympiad := hp.olympiad
  simp only [CivilDate.isLeapYear, yearOfCycle, Bool.and_eq_true, Bool.or_eq_true, beq_iff_eq,
    bne_iff_ne]
  omega

theorem isValid_civil (hp : p.IsValid) : p.civil.IsValid := by
  have hmonth : p.month = (5 * p.day + 2) / 153 := rfl
  have hday := hp.day
  have hleap := isLeapYear_of_leapDay hp
  obtain ⟨hlow, hhigh⟩ := month_bounds hp
  unfold civil CivilDate.IsValid
  generalize p.month = m at *
  interval_cases m
  case «11» =>
    simp [CivilDate.daysInMonth]
    split_ifs with hlong
    · omega
    · have hshort : p.day ≠ 365 := fun hend => hlong (hleap hend)
      omega
  all_goals
    simp [CivilDate.daysInMonth]
    omega

theorem dayNumber_civil (hp : p.IsValid) : p.civil.dayNumber = p.number - 719468 := by
  have hmonth : p.month = (5 * p.day + 2) / 153 := rfl
  have hday := hp.day
  have hdays := daysBefore_yearOfCycle hp
  have hyear : 0 ≤ p.yearOfCycle ∧ p.yearOfCycle ≤ 399 := by
    obtain ⟨hcentury, holympiad, hyear, hday, hleap⟩ := hp
    simp only [yearOfCycle]
    omega
  have hshifted : (if p.civil.month ≤ 2 then p.civil.year - 1 else p.civil.year)
      = 400 * p.cycle + p.yearOfCycle := by
    simp only [civil]
    split_ifs <;> omega
  have hmonths : ((p.civil.month : Int) + 9) % 12 = p.month := by
    simp only [civil]
    split_ifs <;> omega
  have hdate : (p.civil.day : Int) = p.day - (153 * p.month + 2) / 5 + 1 := by
    simp only [civil]
    omega
  have hcycles : (400 * p.cycle + p.yearOfCycle) / 400 = p.cycle := by omega
  have hrest : (400 * p.cycle + p.yearOfCycle) % 400 = p.yearOfCycle := by omega
  simp only [CivilDate.dayNumber, hshifted, hcycles, hrest, hmonths, hdate]
  omega

end YearDay

namespace CivilDate

theorem dayNumber_ofDayNumber (n : Int) :
    (ofDayNumber n).dayNumber = n ∧ (ofDayNumber n).IsValid := by
  obtain ⟨p, hp, hn⟩ := YearDay.exists_of_number (n + 719468)
  rw [YearDay.ofDayNumber_eq hp hn.symm, YearDay.dayNumber_civil hp]
  exact ⟨by omega, YearDay.isValid_civil hp⟩

end CivilDate

namespace Date

open Text

theorem ofCivil?_civil (d : Date) : ofCivil? d.civil = some d := by
  obtain ⟨hday, hvalid⟩ := CivilDate.dayNumber_ofDayNumber d.day
  rw [ofCivil?, civil, if_pos hvalid, hday, ofDay?, dif_pos d.inRange]

section Reading

variable {digits rest : List Char} {width : Nat}

/-- A text whose number ends before it. -/
def NoDigitHead (rest : List Char) : Prop :=
  ∀ c ∈ rest.head?, c.isDigit = false

theorem noDigitHead_hyphen (rest : List Char) : NoDigitHead ('-' :: rest) := by
  rintro c ⟨⟩
  rfl

theorem NoDigitHead.takeWhile_take (h : NoDigitHead rest) (n : Nat) :
    (rest.take n).takeWhile Char.isDigit = [] := by
  cases rest with
  | nil => simp
  | cons c rest =>
      cases n with
      | zero => rfl
      | succ n =>
          have hc : c.isDigit = false := h c rfl
          simp [hc]

theorem takeNumber?_padded {least n : Nat} (hwidth : (padded least n).length ≤ width)
    (hrest : NoDigitHead rest) :
    takeNumber? width (padded least n ++ rest) = some (n, rest) := by
  have htaken : ((padded least n ++ rest).take width).takeWhile Char.isDigit = padded least n := by
    rw [List.take_append, List.take_of_length_le hwidth,
      List.takeWhile_append_of_pos fun _ => isDigit_of_mem_padded, hrest.takeWhile_take,
      List.append_nil]
  simp only [takeNumber?, htaken, natural?_padded, List.drop_left, Option.map_some]

theorem trimStart_padded (least n : Nat) (rest : List Char) :
    trimStart (padded least n ++ rest) = padded least n ++ rest := by
  cases hpadded : padded least n with
  | nil => exact absurd hpadded (padded_ne_nil least n)
  | cons c cs =>
      have hc : c ∈ padded least n := hpadded ▸ List.mem_cons_self
      have hblank := isBlank_of_isDigit (isDigit_of_mem_padded hc)
      simp [trimStart, hblank]

/-- Without a sign a year has four digits. -/
theorem takeYear?_padded {year : Nat} (hyear : year ≤ 9999) (hrest : NoDigitHead rest) :
    takeYear? (padded 4 year ++ rest) = some ((year : Int), rest) := by
  have hlength : (padded 4 year).length = 4 := length_padded (by decide) (by omega)
  have htaken := takeNumber?_padded (Nat.le_of_eq hlength) hrest
  cases hpadded : padded 4 year with
  | nil => exact absurd hpadded (padded_ne_nil 4 year)
  | cons c cs =>
      have hc := isDigit_of_mem_padded (hpadded ▸ List.mem_cons_self : c ∈ padded 4 year)
      rw [hpadded] at htaken
      unfold takeYear?
      split
      case h_1 heq =>
        obtain rfl := (List.cons.inj heq).1
        exact absurd hc (by decide)
      case h_2 heq =>
        obtain rfl := (List.cons.inj heq).1
        exact absurd hc (by decide)
      case h_3 => rw [htaken, Option.map_some]

theorem takeYear?_yearText (year : Int) (hrest : NoDigitHead rest) :
    takeYear? (trimStart (yearText year ++ rest)) = some (year, rest) := by
  have hlength : (padded 4 year.natAbs).length ≤ (padded 4 year.natAbs ++ rest).length := by
    rw [List.length_append]
    exact Nat.le_add_right ..
  unfold yearText
  by_cases hplain : 0 ≤ year ∧ year ≤ 9999
  · rw [if_pos hplain, trimStart_padded, takeYear?_padded (by omega) hrest,
      Int.natAbs_of_nonneg hplain.1]
  · rw [if_neg hplain]
    have hsigned := takeNumber?_padded hlength hrest
    by_cases hnegative : year < 0
    · have hread : takeYear? (trimStart ('-' :: (padded 4 year.natAbs ++ rest)))
          = some (-(year.natAbs : Int), rest) :=
        congrArg (Option.map fun p : Nat × List Char => (-(p.1 : Int), p.2)) hsigned
      rw [if_pos hnegative, List.cons_append, hread, Int.ofNat_natAbs_of_nonpos (by omega),
        Int.neg_neg]
    · have hread : takeYear? (trimStart ('+' :: (padded 4 year.natAbs ++ rest)))
          = some ((year.natAbs : Int), rest) :=
        congrArg (Option.map fun p : Nat × List Char => ((p.1 : Int), p.2)) hsigned
      rw [if_neg hnegative, List.cons_append, hread, Int.natAbs_of_nonneg (by omega)]

/-- A date is read back from its text. -/
theorem read?_text (d : Date) : read? d.text.toList = some d := by
  obtain ⟨-, hvalid⟩ := CivilDate.dayNumber_ofDayNumber d.day
  obtain ⟨-, hmonth, -, hday⟩ := hvalid
  have hlast : CivilDate.daysInMonth d.civil.year d.civil.month ≤ 31 := by
    unfold CivilDate.daysInMonth
    split
    · split <;> decide
    all_goals decide
  have hmonths : (padded 2 d.civil.month).length ≤ 2 :=
    Nat.le_of_eq (length_padded (by decide) (Nat.lt_of_le_of_lt hmonth (by decide)))
  have hdays : (padded 2 d.civil.day).length ≤ 2 :=
    Nat.le_of_eq (length_padded (by decide)
      (Nat.lt_of_le_of_lt (Nat.le_trans hday hlast) (by decide)))
  have hnone : NoDigitHead [] := nofun
  have hend := takeNumber?_padded hdays hnone
  rw [List.append_nil] at hend
  have htrim := trimStart_padded 2 d.civil.day []
  rw [List.append_nil] at htrim
  have hhyphen : ∀ cs, takeHyphen? (trimStart ('-' :: cs)) = some cs := fun _ => rfl
  simp only [read?, text, String.toList_ofList, List.append_assoc, List.cons_append,
    takeYear?_yearText _ (noDigitHead_hyphen _), hhyphen, trimStart_padded,
    takeNumber?_padded hmonths (noDigitHead_hyphen _), htrim, hend, Option.bind_eq_bind,
    Option.bind_some]
  exact ofCivil?_civil d

end Reading

end Date
end JourneyPlanner
