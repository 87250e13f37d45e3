import JourneyPlanner.Text.Blank
import JourneyPlanner.Text.Numeral

/-!
Times of day as seconds since the start of service, and their clock texts. Hours
may pass 24 for trips that run past midnight, and a time may be negative.
-/

namespace JourneyPlanner

/-- Seconds, relative to the start of service of some date. -/
abbrev Time := Int

def secondsOfDay : Time := 86400

/-- Stands in for the times of a trip that does not run. -/
def unavailable : Time := -1

def leastTime : Int := -2147483648

def greatestTime : Int := 2147483647

namespace Time

/-- What is kept of a sum of times: 32 bits, so that a sum that leaves them at one end
comes back at the other. -/
def wrap (sum : Int) : Time :=
  Int.bmod sum 4294967296

/-- 32 bits hold the time. -/
def Fits (t : Int) : Prop :=
  leastTime ≤ t ∧ t ≤ greatestTime

instance (t : Int) : Decidable (Fits t) :=
  inferInstanceAs (Decidable (_ ∧ _))

theorem wrap_of_fits {t : Int} (h : Fits t) : wrap t = t := by
  simp only [Fits, leastTime, greatestTime] at h
  exact Int.bmod_eq_of_le (by omega) (by omega)

theorem fits_wrap (t : Int) : Fits (wrap t) := by
  have hlow := Int.le_bmod (x := t) (m := 4294967296) (by decide)
  have hhigh := Int.bmod_lt (x := t) (m := 4294967296) (by decide)
  simp only [Fits, wrap, leastTime, greatestTime]
  omega

theorem wrap_wrap_add (a b : Int) : wrap (wrap a + b) = wrap (a + b) :=
  Int.bmod_add_bmod ..

theorem wrap_wrap_sub (a b : Int) : wrap (wrap a - b) = wrap (a - b) :=
  Int.bmod_sub_bmod ..

theorem wrap_sub_wrap (a b : Int) : wrap (a - wrap b) = wrap (a - b) :=
  Int.sub_bmod_bmod ..

theorem wrap_add_wrap (a b : Int) : wrap (a + wrap b) = wrap (a + b) :=
  Int.add_bmod_bmod ..

/-- What leaves 32 bits at their upper end comes back below. -/
theorem wrap_le {t : Int} (ht : 0 ≤ t) : wrap t ≤ t := by
  obtain ⟨k, hk⟩ : (4294967296 : Int) ∣ wrap t - t := Int.dvd_bmod_sub_self
  have hkept := (fits_wrap t).2
  grind [greatestTime]

/-- A sum that is kept no less than one of its parts was kept as it is, if the other part is
not negative. -/
theorem wrap_add_of_le {a b : Int} (ha : 0 ≤ a) (hfits : Fits a) (h : wrap b ≤ wrap (a + b)) :
    wrap (a + b) = a + wrap b := by
  obtain ⟨k, hk⟩ : (4294967296 : Int) ∣ wrap (a + wrap b) - (a + wrap b) := Int.dvd_bmod_sub_self
  rw [wrap_add_wrap] at hk
  have hpart := fits_wrap b
  have hsum := fits_wrap (a + b)
  grind [Fits, leastTime, greatestTime]

end Time

namespace Clock

open Text

/-- Minutes and seconds lie below sixty; hours are free, and the time is kept in 32 bits. -/
def ofFields? (hours minutes seconds : Int) : Option Time :=
  if 0 ≤ minutes ∧ minutes < 60 ∧ 0 ≤ seconds ∧ seconds < 60 then
    some (Time.wrap (hours * 3600 + minutes * 60 + seconds))
  else none

def field? (cs : List Char) : Option Int :=
  integerWithin? leastTime greatestTime cs

def pair? (tens ones : Char) : Option Int := do
  let t ← digit? tens
  let o ← digit? ones
  return ((10 * t + o : Nat) : Int)

/-- The three fields of a text of the exact shape `HH:MM:SS`. -/
def fixedFields? : List Char → Option (Int × Int × Int)
  | [h₁, h₂, ':', m₁, m₂, ':', s₁, s₂] => do
    let h ← pair? h₁ h₂
    let m ← pair? m₁ m₂
    let s ← pair? s₁ s₂
    return (h, m, s)
  | _ => none

/-- Two or three fields between colons, blanks around them trimmed away; the
seconds may be left out. -/
def readFields? (cs : List Char) : Option Time :=
  match split ':' (trim cs) with
  | [h, m] => do ofFields? (← field? h) (← field? m) 0
  | [h, m, s] => do ofFields? (← field? h) (← field? m) (← field? s)
  | _ => none

/-- The fixed shape is decided without splitting; all other texts go through
`readFields?`. -/
def read? (cs : List Char) : Option Time :=
  match fixedFields? cs with
  | some (h, m, s) => ofFields? h m s
  | none => readFields? cs

def write (time : Time) : List Char :=
  let s := time.natAbs
  (if time < 0 then ['-'] else [])
    ++ padded 2 (s / 3600) ++ ':' :: padded 2 (s / 60 % 60) ++ ':' :: padded 2 (s % 60)

end Clock
end JourneyPlanner
