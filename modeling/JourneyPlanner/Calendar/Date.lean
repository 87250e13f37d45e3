import JourneyPlanner.Text.Blank
import JourneyPlanner.Text.Numeral
import JourneyPlanner.Json.Record

/-!
Dates of the proleptic Gregorian calendar, as days since 1970-01-01, from
-262143-01-01 to +262142-12-31. Their texts are `YYYY-MM-DD`; outside the years
0 to 9999 the year has a sign. Reading is lenient about blanks around the fields
and about leading zeros.
-/

namespace JourneyPlanner

/-- Year, month and day of the month. -/
structure CivilDate where
  year : Int
  month : Nat
  day : Nat
  deriving DecidableEq, Repr

namespace CivilDate

def isLeapYear (year : Int) : Bool :=
  year % 4 == 0 && (year % 100 != 0 || year % 400 == 0)

def daysInMonth (year : Int) (month : Nat) : Nat :=
  match month with
  | 2 => if isLeapYear year then 29 else 28
  | 4 | 6 | 9 | 11 => 30
  | _ => 31

def IsValid (c : CivilDate) : Prop :=
  1 ≤ c.month ∧ c.month ≤ 12 ∧ 1 ≤ c.day ∧ c.day ≤ daysInMonth c.year c.month

instance (c : CivilDate) : Decidable c.IsValid :=
  inferInstanceAs (Decidable (_ ∧ _ ∧ _ ∧ _))

/-- Days since 1970-01-01. Years are counted from March, so that a leap day ends
its year, and in cycles of 400 years. -/
def dayNumber (c : CivilDate) : Int :=
  let year := if c.month ≤ 2 then c.year - 1 else c.year
  let cycle := year / 400
  let yearOfCycle := year % 400
  let monthFromMarch : Int := (c.month + 9) % 12
  let dayOfYear := (153 * monthFromMarch + 2) / 5 + c.day - 1
  let dayOfCycle := yearOfCycle * 365 + yearOfCycle / 4 - yearOfCycle / 100 + dayOfYear
  cycle * 146097 + dayOfCycle - 719468

def ofDayNumber (n : Int) : CivilDate :=
  let n := n + 719468
  let cycle := n / 146097
  let dayOfCycle := n % 146097
  let yearOfCycle :=
    (dayOfCycle - dayOfCycle / 1460 + dayOfCycle / 36524 - dayOfCycle / 146096) / 365
  let dayOfYear := dayOfCycle - (365 * yearOfCycle + yearOfCycle / 4 - yearOfCycle / 100)
  let monthFromMarch := (5 * dayOfYear + 2) / 153
  let day := dayOfYear - (153 * monthFromMarch + 2) / 5 + 1
  let month := if monthFromMarch < 10 then monthFromMarch + 3 else monthFromMarch - 9
  let year := yearOfCycle + cycle * 400 + (if month ≤ 2 then 1 else 0)
  ⟨year, month.toNat, day.toNat⟩

end CivilDate

def firstDayNumber : Int := -96465292

def lastDayNumber : Int := 95026236

structure Date where
  day : Int
  inRange : firstDayNumber ≤ day ∧ day ≤ lastDayNumber
  deriving DecidableEq

namespace Date

def first : Date := ⟨firstDayNumber, by decide⟩

def last : Date := ⟨lastDayNumber, by decide⟩

instance : Inhabited Date := ⟨first⟩

instance : LE Date := ⟨fun a b => a.day ≤ b.day⟩

instance : LT Date := ⟨fun a b => a.day < b.day⟩

instance (a b : Date) : Decidable (a ≤ b) :=
  inferInstanceAs (Decidable (a.day ≤ b.day))

instance (a b : Date) : Decidable (a < b) :=
  inferInstanceAs (Decidable (a.day < b.day))

@[ext]
theorem ext {a b : Date} (h : a.day = b.day) : a = b := by
  cases a
  cases b
  simp only at h
  subst h
  rfl

def min (a b : Date) : Date :=
  if a ≤ b then a else b

def max (a b : Date) : Date :=
  if a ≤ b then b else a

def ofDay? (n : Int) : Option Date :=
  if h : firstDayNumber ≤ n ∧ n ≤ lastDayNumber then some ⟨n, h⟩ else none

def addDays? (d : Date) (n : Int) : Option Date :=
  ofDay? (d.day + n)

def ofCivil? (c : CivilDate) : Option Date :=
  if c.IsValid then ofDay? c.dayNumber else none

def civil (d : Date) : CivilDate :=
  CivilDate.ofDayNumber d.day

/-- Days from `a` to `b`, negative if `b` comes first. -/
def daysUntil (a b : Date) : Int :=
  b.day - a.day

open Text

def yearText (year : Int) : List Char :=
  if 0 ≤ year ∧ year ≤ 9999 then padded 4 year.natAbs
  else (if year < 0 then '-' else '+') :: padded 4 year.natAbs

def text (d : Date) : String :=
  let c := d.civil
  String.ofList (yearText c.year ++ '-' :: padded 2 c.month ++ '-' :: padded 2 c.day)

/-- At least one and at most `width` digits, and what follows them. -/
def takeNumber? (width : Nat) (cs : List Char) : Option (Nat × List Char) :=
  let ds := (cs.take width).takeWhile Char.isDigit
  (natural? ds).map fun n => (n, cs.drop ds.length)

/-- Four digits at most without a sign, any number of them after one. -/
def takeYear? (cs : List Char) : Option (Int × List Char) :=
  match cs with
  | '-' :: cs => (takeNumber? cs.length cs).map fun (n, rest) => (-(n : Int), rest)
  | '+' :: cs => (takeNumber? cs.length cs).map fun (n, rest) => ((n : Int), rest)
  | cs => (takeNumber? 4 cs).map fun (n, rest) => ((n : Int), rest)

def takeHyphen? : List Char → Option (List Char)
  | '-' :: cs => some cs
  | _ => none

def read? (cs : List Char) : Option Date := do
  let (year, cs) ← takeYear? (trimStart cs)
  let cs ← takeHyphen? (trimStart cs)
  let (month, cs) ← takeNumber? 2 (trimStart cs)
  let cs ← takeHyphen? (trimStart cs)
  let (day, cs) ← takeNumber? 2 (trimStart cs)
  if (trimStart cs).isEmpty then ofCivil? ⟨year, month, day⟩ else none

def toJson (d : Date) : Json :=
  .str d.text

def ofJson : Json → Reading Date
  | .str s =>
    match read? s.toList with
    | some d => .ok d
    | none => .error .mismatch
  | _ => .error .mismatch

end Date
end JourneyPlanner
