import Mathlib.Data.List.TakeWhile
import JourneyPlanner.Clock
import JourneyPlanner.Proofs.Numerals

/-!
Clock texts: which there are, what is read of them, and what is read of those that are written.
A text of the exact shape `HH:MM:SS` is read on its own, with the same result as all others. A
sign is written in front of the whole text, but read as that of the hours alone.
-/

namespace JourneyPlanner

namespace Text

variable {cs before body after : List Char}

section Blanks

theorem trimStart_append (hbefore : ∀ c ∈ before, isBlank c = true) (cs : List Char) :
    trimStart (before ++ cs) = trimStart cs :=
  List.dropWhile_append_of_pos hbefore

theorem trimStart_of_not_blank (hne : cs ≠ []) (h : ∀ c ∈ cs, isBlank c = false)
    (rest : List Char) : trimStart (cs ++ rest) = cs ++ rest := by
  obtain ⟨c, cs, rfl⟩ := List.exists_cons_of_ne_nil hne
  exact List.dropWhile_cons_of_neg (by simp [h c List.mem_cons_self])

/-- Blanks on either side are trimmed away. -/
theorem trim_append (hbefore : ∀ c ∈ before, isBlank c = true)
    (hafter : ∀ c ∈ after, isBlank c = true) (hne : body ≠ [])
    (hbody : ∀ c ∈ body, isBlank c = false) : trim (before ++ body ++ after) = body := by
  have hreversed : trimStart (body ++ after).reverse = body.reverse := by
    rw [List.reverse_append, trimStart_append fun c hc => hafter c (List.mem_reverse.mp hc)]
    have hkept := trimStart_of_not_blank (List.reverse_ne_nil_iff.mpr hne)
      (fun c hc => hbody c (List.mem_reverse.mp hc)) []
    rwa [List.append_nil] at hkept
  rw [trim, List.append_assoc, trimStart_append hbefore, trimStart_of_not_blank hne hbody, trimEnd,
    hreversed, List.reverse_reverse]

theorem exists_blanks_trimStart (cs : List Char) :
    ∃ before, cs = before ++ trimStart cs ∧ ∀ c ∈ before, isBlank c = true :=
  ⟨cs.takeWhile isBlank, List.takeWhile_append_dropWhile.symm, fun _ => List.mem_takeWhile_imp⟩

/-- Nothing but blanks is trimmed away. -/
theorem exists_blanks_trim (cs : List Char) : ∃ before after, cs = before ++ trim cs ++ after
    ∧ (∀ c ∈ before, isBlank c = true) ∧ ∀ c ∈ after, isBlank c = true := by
  obtain ⟨before, hcs, hbefore⟩ := exists_blanks_trimStart cs
  obtain ⟨after, hrest, hafter⟩ := exists_blanks_trimStart (trimStart cs).reverse
  refine ⟨before, after.reverse, ?_, hbefore, fun c hc => hafter c (List.mem_reverse.mp hc)⟩
  have hrest := congrArg List.reverse hrest
  rw [List.reverse_reverse, List.reverse_append] at hrest
  rw [List.append_assoc, trim, trimEnd, ← hrest]
  exact hcs

end Blanks

theorem split_eq_splitOn (sep : Char) (cs : List Char) : split sep cs = cs.splitOn sep := by
  induction cs with
  | nil => rfl
  | cons c cs ih =>
      rw [split, List.splitOn_cons_eq_if_modifyHead, ih]
      by_cases hc : c = sep
      · simp [hc]
      · obtain ⟨piece, pieces, hpieces⟩ := List.exists_cons_of_ne_nil (List.splitOn_ne_nil sep cs)
        simp [hc, hpieces]

/-- Pieces without the separator are cut where they were put together. -/
theorem split_intercalate {sep : Char} {pieces : List (List Char)} (hne : pieces ≠ [])
    (hpieces : ∀ piece ∈ pieces, sep ∉ piece) : split sep ([sep].intercalate pieces) = pieces :=
  (split_eq_splitOn ..).trans (List.splitOn_intercalate sep hpieces hne)

theorem intercalate_split (sep : Char) (cs : List Char) :
    [sep].intercalate (split sep cs) = cs := by
  rw [split_eq_splitOn, List.intercalate_splitOn]

theorem mem_intercalate {sep c : Char} {pieces : List (List Char)}
    (h : c ∈ [sep].intercalate pieces) : c = sep ∨ ∃ piece ∈ pieces, c ∈ piece := by
  induction pieces with
  | nil => simp at h
  | cons piece pieces ih =>
      cases pieces with
      | nil => exact .inr ⟨piece, List.mem_cons_self, by simpa using h⟩
      | cons next rest =>
          rw [List.intercalate_cons_cons, List.mem_append, List.mem_append,
            List.mem_singleton] at h
          obtain (h | h) | h := h
          · exact .inr ⟨piece, List.mem_cons_self, h⟩
          · exact .inl h
          · obtain hsep | ⟨piece', hpiece', hc⟩ := ih h
            · exact .inl hsep
            · exact .inr ⟨piece', List.mem_cons_of_mem _ hpiece', hc⟩

namespace IsNumeral

variable {z : Int}

theorem sign_or_digit (h : IsNumeral cs z) : ∀ c ∈ cs, c = '+' ∨ c = '-' ∨ c.isDigit = true := by
  cases h with
  | unsigned _ hdigits => exact fun c hc => .inr (.inr (hdigits c hc))
  | positive _ hdigits =>
      exact List.forall_mem_cons.mpr ⟨.inl rfl, fun c hc => .inr (.inr (hdigits c hc))⟩
  | negative _ hdigits =>
      exact List.forall_mem_cons.mpr ⟨.inr (.inl rfl), fun c hc => .inr (.inr (hdigits c hc))⟩

theorem isBlank_eq_false (h : IsNumeral cs z) : ∀ c ∈ cs, isBlank c = false := by
  intro c hc
  obtain rfl | rfl | hdigit := h.sign_or_digit c hc
  · decide
  · decide
  · exact isBlank_of_isDigit hdigit

theorem colon_notMem (h : IsNumeral cs z) : ':' ∉ cs := by
  intro hcolon
  have hchar := h.sign_or_digit ':' hcolon
  revert hchar
  decide

end IsNumeral

theorem isNumeral_padded (width n : Nat) : IsNumeral (padded width n) n := by
  have h := IsNumeral.unsigned (padded_ne_nil width n) fun _ => isDigit_of_mem_padded
  rwa [ofDigitChars_padded] at h

theorem isNumeral_negative_padded (width n : Nat) : IsNumeral ('-' :: padded width n) (-n) := by
  have h := IsNumeral.negative (padded_ne_nil width n) fun _ => isDigit_of_mem_padded
  rwa [ofDigitChars_padded] at h

end Text

namespace Clock

open Text

/-- A numeral for a number of 32 bits. -/
structure IsField (cs : List Char) (z : Int) : Prop where
  numeral : IsNumeral cs z
  least : leastTime ≤ z
  greatest : z ≤ greatestTime

/-- Two or three fields; without a third one there are no seconds. -/
inductive AreFields : List (List Char) → Int → Int → Int → Prop where
  | two {h m : List Char} {hours minutes : Int} (hh : IsField h hours) (hm : IsField m minutes) :
      AreFields [h, m] hours minutes 0
  | three {h m s : List Char} {hours minutes seconds : Int} (hh : IsField h hours)
      (hm : IsField m minutes) (hs : IsField s seconds) : AreFields [h, m, s] hours minutes seconds

/-- Fields with colons between them, and any blanks around them all. -/
def HasFields (cs : List Char) (hours minutes seconds : Int) : Prop :=
  ∃ before pieces after, cs = before ++ [':'].intercalate pieces ++ after
    ∧ (∀ c ∈ before, isBlank c = true) ∧ (∀ c ∈ after, isBlank c = true)
    ∧ AreFields pieces hours minutes seconds

/-- A text of hours, minutes and seconds. -/
structure IsClock (cs : List Char) (hours minutes seconds : Int) : Prop where
  fields : HasFields cs hours minutes seconds
  minutes : 0 ≤ minutes ∧ minutes < 60
  seconds : 0 ≤ seconds ∧ seconds < 60

def total (hours minutes seconds : Int) : Int :=
  hours * 3600 + minutes * 60 + seconds

/-- The numbers that pieces of a text stand for. -/
def numbers? : List (List Char) → Option (Int × Int × Int)
  | [h, m] => do return (← field? h, ← field? m, 0)
  | [h, m, s] => do return (← field? h, ← field? m, ← field? s)
  | _ => none

variable {cs : List Char} {pieces : List (List Char)} {hours minutes seconds : Int} {v : Time}

theorem field?_eq_some_iff {z : Int} : field? cs = some z ↔ IsField cs z := by
  simp only [field?, integerWithin?, Option.filter_eq_some_iff, signed?_eq_some_iff,
    Bool.and_eq_true, decide_eq_true_eq]
  exact ⟨fun ⟨h, hlo, hhi⟩ => ⟨h, hlo, hhi⟩, fun ⟨h, hlo, hhi⟩ => ⟨h, hlo, hhi⟩⟩

theorem numbers?_eq_some_iff :
    numbers? pieces = some (hours, minutes, seconds) ↔ AreFields pieces hours minutes seconds := by
  constructor
  · intro h
    unfold numbers? at h
    split at h
    case h_1 | h_2 =>
      simp only [Option.bind_eq_bind, Option.bind_eq_some_iff, Option.pure_def, Option.some.injEq,
        Prod.mk.injEq, field?_eq_some_iff] at h
      grind [AreFields]
    case h_3 => simp at h
  · rintro (⟨hh, hm⟩ | ⟨hh, hm, hs⟩)
    · simp [numbers?, field?_eq_some_iff.mpr hh, field?_eq_some_iff.mpr hm]
    · simp [numbers?, field?_eq_some_iff.mpr hh, field?_eq_some_iff.mpr hm,
        field?_eq_some_iff.mpr hs]

namespace AreFields

theorem isNumeral (h : AreFields pieces hours minutes seconds) :
    ∀ piece ∈ pieces, ∃ z, IsNumeral piece z := by
  cases h with
  | two hh hm =>
      exact List.forall_mem_cons.mpr ⟨⟨_, hh.numeral⟩, List.forall_mem_singleton.mpr ⟨_, hm.numeral⟩⟩
  | three hh hm hs =>
      exact List.forall_mem_cons.mpr ⟨⟨_, hh.numeral⟩, List.forall_mem_cons.mpr ⟨⟨_, hm.numeral⟩,
        List.forall_mem_singleton.mpr ⟨_, hs.numeral⟩⟩⟩

theorem ne_nil (h : AreFields pieces hours minutes seconds) : pieces ≠ [] := by
  cases h <;> simp

theorem intercalate_ne_nil (h : AreFields pieces hours minutes seconds) :
    [':'].intercalate pieces ≠ [] := by
  cases h <;> simp [List.intercalate_cons_cons]

theorem split_eq (h : AreFields pieces hours minutes seconds) :
    split ':' ([':'].intercalate pieces) = pieces := by
  refine split_intercalate h.ne_nil fun piece hpiece => ?_
  obtain ⟨z, hz⟩ := h.isNumeral piece hpiece
  exact hz.colon_notMem

theorem isBlank_eq_false (h : AreFields pieces hours minutes seconds) :
    ∀ c ∈ [':'].intercalate pieces, isBlank c = false := by
  intro c hc
  obtain rfl | ⟨piece, hpiece, hc⟩ := mem_intercalate hc
  · decide
  · obtain ⟨z, hz⟩ := h.isNumeral piece hpiece
    exact hz.isBlank_eq_false c hc

end AreFields

/-- The fields of a text are the pieces of what it has between blanks. -/
theorem hasFields_iff : HasFields cs hours minutes seconds ↔
    numbers? (split ':' (trim cs)) = some (hours, minutes, seconds) := by
  constructor
  · rintro ⟨before, pieces, after, rfl, hbefore, hafter, hfields⟩
    rw [trim_append hbefore hafter hfields.intercalate_ne_nil hfields.isBlank_eq_false,
      hfields.split_eq]
    exact numbers?_eq_some_iff.mpr hfields
  · intro h
    obtain ⟨before, after, hcs, hbefore, hafter⟩ := exists_blanks_trim cs
    refine ⟨before, _, after, ?_, hbefore, hafter, numbers?_eq_some_iff.mp h⟩
    rwa [intercalate_split]

theorem readFields?_eq (cs : List Char) : readFields? cs =
    (numbers? (split ':' (trim cs))).bind fun x => ofFields? x.1 x.2.1 x.2.2 := by
  unfold readFields?
  match split ':' (trim cs) with
  | [] | [_] | _ :: _ :: _ :: _ :: _ => rfl
  | [h, m] => cases hh : field? h <;> cases hm : field? m <;> simp [numbers?, hh, hm]
  | [h, m, s] =>
      cases hh : field? h <;> cases hm : field? m <;> cases hs : field? s <;>
        simp [numbers?, hh, hm, hs]

theorem ofFields?_eq_some_iff : ofFields? hours minutes seconds = some v ↔
    (0 ≤ minutes ∧ minutes < 60) ∧ (0 ≤ seconds ∧ seconds < 60)
      ∧ v = Time.wrap (total hours minutes seconds) := by
  rw [ofFields?, Option.ite_none_right_eq_some, Option.some_inj, total, eq_comm (a := v)]
  simp only [and_assoc]

theorem readFields?_eq_some_iff : readFields? cs = some v ↔ ∃ hours minutes seconds,
    IsClock cs hours minutes seconds ∧ v = Time.wrap (total hours minutes seconds) := by
  rw [readFields?_eq, Option.bind_eq_some_iff]
  constructor
  · rintro ⟨⟨hours, minutes, seconds⟩, hfields, h⟩
    obtain ⟨hminutes, hseconds, rfl⟩ := ofFields?_eq_some_iff.mp h
    exact ⟨hours, minutes, seconds, ⟨hasFields_iff.mpr hfields, hminutes, hseconds⟩, rfl⟩
  · rintro ⟨hours, minutes, seconds, ⟨hfields, hminutes, hseconds⟩, hv⟩
    exact ⟨(hours, minutes, seconds), hasFields_iff.mp hfields,
      ofFields?_eq_some_iff.mpr ⟨hminutes, hseconds, hv⟩⟩

/-- No text says two times. -/
theorem HasFields.unique {hours' minutes' seconds' : Int} (h : HasFields cs hours minutes seconds)
    (h' : HasFields cs hours' minutes' seconds') :
    hours' = hours ∧ minutes' = minutes ∧ seconds' = seconds := by
  rw [hasFields_iff] at h h'
  simpa using h'.symm.trans h

section FixedShape

theorem isField_of_pair {t o : Char} {z : Int} (h : pair? t o = some z) : IsField [t, o] z := by
  simp only [pair?, Option.bind_eq_bind, Option.bind_eq_some_iff, Option.pure_def,
    Option.some_inj] at h
  obtain ⟨d, hd, e, he, rfl⟩ := h
  obtain ⟨ht, rfl⟩ := digit?_eq_some_iff.mp hd
  obtain ⟨ho, rfl⟩ := digit?_eq_some_iff.mp he
  have hdigits : ∀ c ∈ [t, o], c.isDigit = true := by simp [ht, ho]
  have htens := toNat_of_isDigit ht
  have hones := toNat_of_isDigit ho
  have hnumeral := IsNumeral.unsigned (List.cons_ne_nil t [o]) hdigits
  refine ⟨by simpa [Nat.ofDigitChars_cons] using hnumeral, ?_, ?_⟩
  · simp only [leastTime]
    omega
  · simp only [greatestTime]
    omega

/-- A text of the fixed shape has the three fields that stand in it. -/
theorem hasFields_of_fixedFields (h : fixedFields? cs = some (hours, minutes, seconds)) :
    HasFields cs hours minutes seconds := by
  unfold fixedFields? at h
  split at h
  case h_1 h₁ h₂ m₁ m₂ s₁ s₂ =>
    simp only [Option.bind_eq_bind, Option.bind_eq_some_iff, Option.pure_def, Option.some_inj,
      Prod.mk.injEq] at h
    obtain ⟨_, hh, _, hm, _, hs, rfl, rfl, rfl⟩ := h
    exact ⟨[], [[h₁, h₂], [m₁, m₂], [s₁, s₂]], [], rfl, by simp, by simp,
      .three (isField_of_pair hh) (isField_of_pair hm) (isField_of_pair hs)⟩
  case h_2 => simp at h

/-- The fixed shape is read as any other text is. -/
theorem read?_eq_readFields? (cs : List Char) : read? cs = readFields? cs := by
  unfold read?
  cases h : fixedFields? cs with
  | none => rfl
  | some x =>
      obtain ⟨hours, minutes, seconds⟩ := x
      rw [readFields?_eq, hasFields_iff.mp (hasFields_of_fixedFields h), Option.bind_some]

end FixedShape

/-- Whatever its shape, a text is read as the seconds of the fields that it has between blanks,
as long as 32 bits hold them. -/
theorem read?_iff_isClock (cs : List Char)
    (hkept : ∀ hours minutes seconds, IsClock cs hours minutes seconds →
      leastTime ≤ hours * 3600 + minutes * 60 + seconds
        ∧ hours * 3600 + minutes * 60 + seconds ≤ greatestTime) :
    read? cs = readFields? cs
      ∧ ∀ v, read? cs = some v ↔ ∃ hours minutes seconds,
        IsClock cs hours minutes seconds ∧ v = hours * 3600 + minutes * 60 + seconds := by
  refine ⟨read?_eq_readFields? cs, fun v => ?_⟩
  rw [read?_eq_readFields?, readFields?_eq_some_iff]
  refine exists_congr fun hours => exists_congr fun minutes => exists_congr fun seconds =>
    and_congr_right fun hclock => ?_
  rw [total, Time.wrap_of_fits (hkept hours minutes seconds hclock)]

/-- As long as a text of the fixed shape and with its colons, but the hours have a sign. -/
def signedHours : List Char :=
  ['-', '1', ':', '0', '2', ':', '0', '3']

theorem signedHours_read :
    (∀ hours minutes seconds, IsClock signedHours hours minutes seconds →
        leastTime ≤ hours * 3600 + minutes * 60 + seconds
          ∧ hours * 3600 + minutes * 60 + seconds ≤ greatestTime)
      ∧ read? signedHours = readFields? signedHours ∧ read? signedHours = some (-3477) := by
  have hfields : HasFields signedHours (-1) 2 3 := hasFields_iff.mpr (by decide +kernel)
  have hkept : ∀ hours minutes seconds, IsClock signedHours hours minutes seconds →
      leastTime ≤ hours * 3600 + minutes * 60 + seconds
        ∧ hours * 3600 + minutes * 60 + seconds ≤ greatestTime := by
    intro hours minutes seconds h
    obtain ⟨rfl, rfl, rfl⟩ := hfields.unique h.fields
    decide
  obtain ⟨hsame, hread⟩ := read?_iff_isClock signedHours hkept
  exact ⟨hkept, hsame, (hread _).mpr ⟨-1, 2, 3, ⟨hfields, by decide, by decide⟩, by decide⟩⟩

section Writing

variable {s : Int}

theorem isField_padded (width : Nat) {n : Nat} (hn : n ≤ 2147483647) :
    IsField (padded width n) n where
  numeral := isNumeral_padded width n
  least := by simp only [leastTime]; omega
  greatest := by simp only [greatestTime]; omega

theorem isField_negative_padded (width : Nat) {n : Nat} (hn : n ≤ 2147483647) :
    IsField ('-' :: padded width n) (-n) where
  numeral := isNumeral_negative_padded width n
  least := by simp only [leastTime]; omega
  greatest := by simp only [greatestTime]; omega

/-- A time is written with its sign before the hours; minutes and seconds have none. -/
theorem isClock_write (h : s.natAbs ≤ 2147483647) :
    IsClock (write s) (if s < 0 then -(s.natAbs / 3600 : Nat) else (s.natAbs / 3600 : Nat))
      (s.natAbs / 60 % 60 : Nat) (s.natAbs % 60 : Nat) := by
  have hhours : IsField ((if s < 0 then ['-'] else []) ++ padded 2 (s.natAbs / 3600))
      (if s < 0 then -(s.natAbs / 3600 : Nat) else (s.natAbs / 3600 : Nat)) := by
    split
    · exact isField_negative_padded 2 (by omega)
    · exact isField_padded 2 (by omega)
  refine ⟨⟨[], _, [], ?_, by simp, by simp,
    .three hhours (isField_padded 2 (by omega)) (isField_padded 2 (by omega))⟩, by omega, by omega⟩
  simp [write, List.intercalate_cons_cons]

/-- What was taken off the hours of a negative time comes back with the wrong sign. -/
theorem read?_write (h : s.natAbs ≤ 2147483647) :
    read? (write s) = some (if s < 0 then s + 2 * (-s % 3600) else s) := by
  rw [read?_eq_readFields?, readFields?_eq_some_iff]
  refine ⟨_, _, _, isClock_write h, ?_⟩
  have htotal : total (if s < 0 then -(s.natAbs / 3600 : Nat) else (s.natAbs / 3600 : Nat))
      (s.natAbs / 60 % 60 : Nat) (s.natAbs % 60 : Nat)
        = if s < 0 then s + 2 * (-s % 3600) else s := by
    unfold total
    split <;> omega
  rw [htotal, Time.wrap_of_fits]
  simp only [Time.Fits, leastTime, greatestTime]
  split <;> omega

/-- A time that is written is read back as it was, unless it is negative and no whole number of
hours. -/
theorem read?_write_iff (hlo : leastTime < s) (hhi : s ≤ greatestTime) :
    (read? (write s) = some s ↔ 0 ≤ s ∨ 3600 ∣ s)
      ∧ (s < 0 → read? (write s) = some (s + 2 * (-s % 3600))) := by
  have habs : s.natAbs ≤ 2147483647 := by
    simp only [leastTime] at hlo
    simp only [greatestTime] at hhi
    omega
  rw [read?_write habs, Option.some_inj]
  constructor
  · split <;> omega
  · intro hneg
    rw [if_pos hneg]

theorem limits_read_back :
    write greatestTime = ['5', '9', '6', '5', '2', '3', ':', '1', '4', ':', '0', '7']
      ∧ read? (write greatestTime) = some greatestTime
      ∧ write (-432000) = ['-', '1', '2', '0', ':', '0', '0', ':', '0', '0']
      ∧ read? (write (-432000)) = some (-432000) := by
  refine ⟨by decide +kernel, ?_, by decide +kernel, ?_⟩
  · exact (read?_write_iff (by decide) (by decide)).1.mpr (.inl (by decide))
  · exact (read?_write_iff (by decide) (by decide)).1.mpr (.inr (by decide))

/-- Half an hour before the start of service is read as half an hour after it. -/
theorem halfHourBefore_misread :
    leastTime < -1800 ∧ write (-1800) = ['-', '0', '0', ':', '3', '0', ':', '0', '0']
      ∧ read? (write (-1800)) = some 1800 ∧ read? (write (-1800)) ≠ some (-1800) :=
  ⟨by decide, by decide +kernel, by decide +kernel, by decide +kernel⟩

end Writing

end Clock
end JourneyPlanner
