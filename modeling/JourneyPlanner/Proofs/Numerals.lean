import Mathlib.Algebra.Group.Nat.Defs
import JourneyPlanner.Text.Blank
import JourneyPlanner.Text.Numeral

/-!
Numerals read back: what is written with zeros in front is read as the same number, and what is
read as a number is a numeral.
-/

namespace JourneyPlanner.Text

variable {cs : List Char} {width n : Nat}

theorem toNat_of_isDigit {c : Char} (h : c.isDigit = true) : 48 ≤ c.toNat ∧ c.toNat ≤ 57 := by
  simp only [Char.isDigit, Bool.and_eq_true, decide_eq_true_eq, ge_iff_le, UInt32.le_iff_toNat_le]
    at h
  exact h

theorem isBlank_of_isDigit {c : Char} (h : c.isDigit = true) : isBlank c = false := by
  have hbounds := toNat_of_isDigit h
  refine Bool.eq_false_iff.mpr fun hblank => ?_
  obtain ⟨range, hrange, hwithin⟩ := List.any_eq_true.mp hblank
  have hbeside := (by decide : ∀ r ∈ blankRanges, r.2 < 48 ∨ 57 < r.1) range hrange
  simp only [Bool.and_eq_true, decide_eq_true_eq] at hwithin
  omega

theorem foldlM_digits (h : ∀ c ∈ cs, c.isDigit = true) (n : Nat) :
    cs.foldlM (fun n c => (digit? c).map fun d => 10 * n + d) n
      = some (Nat.ofDigitChars 10 cs n) := by
  induction cs generalizing n with
  | nil => rfl
  | cons c cs ih =>
      have hc : digit? c = some (c.toNat - '0'.toNat) := if_pos (h c List.mem_cons_self)
      rw [List.foldlM_cons, hc, Nat.ofDigitChars_cons]
      exact ih (fun c hc => h c (List.mem_cons_of_mem _ hc)) _

theorem natural?_of_isDigit (hne : cs ≠ []) (h : ∀ c ∈ cs, c.isDigit = true) :
    natural? cs = some (Nat.ofDigitChars 10 cs 0) := by
  cases cs with
  | nil => exact absurd rfl hne
  | cons c cs => exact foldlM_digits h 0

theorem padded_ne_nil (width n : Nat) : padded width n ≠ [] := by
  simp [padded]

theorem isDigit_of_mem_padded {c : Char} (h : c ∈ padded width n) : c.isDigit = true := by
  simp only [padded, List.mem_append, List.mem_replicate] at h
  obtain ⟨-, rfl⟩ | h := h
  · rfl
  · exact Nat.isDigit_of_mem_toDigits (by decide) (by decide) h

theorem length_padded (hwidth : 0 < width) (hn : n < 10 ^ width) :
    (padded width n).length = width := by
  have hlength := (Nat.length_toDigits_le_iff (by decide : 1 < 10) hwidth).mpr hn
  simp only [padded, List.length_append, List.length_replicate]
  omega

/-- Zeros in front do not count. -/
theorem ofDigitChars_padded (width n : Nat) : Nat.ofDigitChars 10 (padded width n) 0 = n := by
  simp only [padded, Nat.ofDigitChars_append, Nat.ofDigitChars_replicate_zero, Nat.mul_zero,
    Nat.ofDigitChars_ten_toDigits]

theorem natural?_padded (width n : Nat) : natural? (padded width n) = some n := by
  rw [natural?_of_isDigit (padded_ne_nil width n) fun _ => isDigit_of_mem_padded,
    ofDigitChars_padded]

theorem digit?_eq_some_iff {c : Char} {d : Nat} :
    digit? c = some d ↔ c.isDigit = true ∧ c.toNat - '0'.toNat = d := by
  rw [digit?, Option.ite_none_right_eq_some, Option.some_inj]

/-- Nothing but digits is read as digits. -/
theorem isDigit_of_foldlM_digits {m : Nat}
    (h : cs.foldlM (fun n c => (digit? c).map fun d => 10 * n + d) n = some m) :
    ∀ c ∈ cs, c.isDigit = true := by
  induction cs generalizing n with
  | nil => exact fun c hc => absurd hc List.not_mem_nil
  | cons c cs ih =>
      rw [List.foldlM_cons, Option.bind_eq_bind, Option.bind_eq_some_iff] at h
      obtain ⟨n', hc, hcs⟩ := h
      obtain ⟨d, hd, -⟩ := Option.map_eq_some_iff.mp hc
      exact List.forall_mem_cons.mpr ⟨(digit?_eq_some_iff.mp hd).1, ih hcs⟩

theorem map_natural?_eq_some_iff {f : Nat → Int} {z : Int} : (natural? cs).map f = some z ↔
    cs ≠ [] ∧ (∀ c ∈ cs, c.isDigit = true) ∧ z = f (Nat.ofDigitChars 10 cs 0) := by
  constructor
  · intro h
    obtain ⟨n, hn, rfl⟩ := Option.map_eq_some_iff.mp h
    have hne : cs ≠ [] := by
      rintro rfl
      simp [natural?] at hn
    have hdigits : ∀ c ∈ cs, c.isDigit = true := by
      cases cs with
      | nil => exact absurd rfl hne
      | cons c cs => exact isDigit_of_foldlM_digits hn
    rw [natural?_of_isDigit hne hdigits] at hn
    exact ⟨hne, hdigits, congrArg f (Option.some.inj hn).symm⟩
  · rintro ⟨hne, hdigits, rfl⟩
    rw [natural?_of_isDigit hne hdigits, Option.map_some]

/-- A whole number in decimal: a sign or none, and one digit at least. -/
inductive IsNumeral : List Char → Int → Prop where
  | unsigned {ds : List Char} (hne : ds ≠ []) (hdigits : ∀ c ∈ ds, c.isDigit = true) :
      IsNumeral ds (Nat.ofDigitChars 10 ds 0)
  | positive {ds : List Char} (hne : ds ≠ []) (hdigits : ∀ c ∈ ds, c.isDigit = true) :
      IsNumeral ('+' :: ds) (Nat.ofDigitChars 10 ds 0)
  | negative {ds : List Char} (hne : ds ≠ []) (hdigits : ∀ c ∈ ds, c.isDigit = true) :
      IsNumeral ('-' :: ds) (-(Nat.ofDigitChars 10 ds 0 : Int))

section Sign

theorem signed?_negative (ds : List Char) :
    signed? ('-' :: ds) = (natural? ds).map fun n : Nat => -(n : Int) := by
  cases h : natural? ds <;> simp [signed?, h]

theorem signed?_positive (ds : List Char) :
    signed? ('+' :: ds) = (natural? ds).map fun n : Nat => (n : Int) := by
  cases h : natural? ds <;> simp [signed?, h]

theorem signed?_unsigned (hnegative : ∀ ds, cs ≠ '-' :: ds) (hpositive : ∀ ds, cs ≠ '+' :: ds) :
    signed? cs = (natural? cs).map fun n : Nat => (n : Int) := by
  unfold signed?
  split
  case h_1 ds => exact absurd rfl (hnegative ds)
  case h_2 ds => exact absurd rfl (hpositive ds)
  case h_3 => cases natural? cs <;> rfl

/-- What is read as a number is a numeral, and every numeral is read. -/
theorem signed?_eq_some_iff {z : Int} : signed? cs = some z ↔ IsNumeral cs z := by
  constructor
  · intro h
    by_cases hnegative : ∃ ds, cs = '-' :: ds
    · obtain ⟨ds, rfl⟩ := hnegative
      rw [signed?_negative, map_natural?_eq_some_iff] at h
      obtain ⟨hne, hdigits, rfl⟩ := h
      exact .negative hne hdigits
    by_cases hpositive : ∃ ds, cs = '+' :: ds
    · obtain ⟨ds, rfl⟩ := hpositive
      rw [signed?_positive, map_natural?_eq_some_iff] at h
      obtain ⟨hne, hdigits, rfl⟩ := h
      exact .positive hne hdigits
    · rw [signed?_unsigned (fun ds => not_exists.mp hnegative ds)
        (fun ds => not_exists.mp hpositive ds), map_natural?_eq_some_iff] at h
      obtain ⟨hne, hdigits, rfl⟩ := h
      exact .unsigned hne hdigits
  · intro h
    cases h with
    | negative hne hdigits =>
        rw [signed?_negative, natural?_of_isDigit hne hdigits, Option.map_some]
    | positive hne hdigits =>
        rw [signed?_positive, natural?_of_isDigit hne hdigits, Option.map_some]
    | unsigned hne hdigits =>
        -- a sign is no digit
        have hnegative : ∀ ds, cs ≠ '-' :: ds := by
          rintro ds rfl
          exact absurd (hdigits '-' List.mem_cons_self) (by decide)
        have hpositive : ∀ ds, cs ≠ '+' :: ds := by
          rintro ds rfl
          exact absurd (hdigits '+' List.mem_cons_self) (by decide)
        rw [signed?_unsigned hnegative hpositive, natural?_of_isDigit hne hdigits, Option.map_some]

end Sign

end JourneyPlanner.Text
