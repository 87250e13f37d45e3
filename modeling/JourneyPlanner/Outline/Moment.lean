import JourneyPlanner.Calendar.Date

/-!
Moments in an outline: a date, a time of day, or both with or without an offset
from universal time. The seconds may be left out, and a leap second is allowed.
-/

namespace JourneyPlanner.Outline

/-- A number of exactly that many digits, and what follows it. -/
def fixed? (width : Nat) (cs : List Char) : Option (Nat × List Char) :=
  if width ≤ cs.length then (Text.natural? (cs.take width)).map fun n => (n, cs.drop width)
  else none

def take? (c : Char) : List Char → Option (List Char)
  | d :: cs => if d = c then some cs else none
  | [] => none

/-- What follows a date that exists. -/
def afterDate? (cs : List Char) : Option (List Char) := do
  let (year, cs) ← fixed? 4 cs
  let (month, cs) ← fixed? 2 (← take? '-' cs)
  let (day, cs) ← fixed? 2 (← take? '-' cs)
  if (CivilDate.mk year month day).IsValid then some cs else none

/-- What follows a number of two digits up to `greatest`. -/
def afterPart? (greatest : Nat) (cs : List Char) : Option (List Char) := do
  let (n, cs) ← fixed? 2 cs
  if n ≤ greatest then some cs else none

def afterFraction? : List Char → Option (List Char)
  | '.' :: cs =>
    if (cs.takeWhile Char.isDigit).isEmpty then none else some (cs.dropWhile Char.isDigit)
  | cs => some cs

def afterTime? (cs : List Char) : Option (List Char) := do
  let cs ← afterPart? 23 cs
  let cs ← afterPart? 59 (← take? ':' cs)
  match cs with
  | ':' :: cs => afterFraction? (← afterPart? 60 cs)
  | cs => some cs

/-- Universal time, or a shift from it by less than a day. -/
def isOffset : List Char → Bool
  | [] => true
  | [c] => c == 'Z' || c == 'z'
  | c :: cs =>
    let shift := do
      let cs ← afterPart? 23 cs
      afterPart? 59 (← take? ':' cs)
    (c == '+' || c == '-') && shift == some []

def isDate (cs : List Char) : Bool :=
  afterDate? cs == some []

def isMoment (cs : List Char) : Bool :=
  match afterDate? cs with
  | some [] => true
  | some (c :: time) =>
    (c == 'T' || c == 't' || c == ' ') && ((afterTime? time).map isOffset).getD false
  | none => afterTime? cs == some []

end JourneyPlanner.Outline
