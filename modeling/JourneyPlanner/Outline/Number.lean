import JourneyPlanner.Text.Numeral

/-!
Numbers of an outline. Single underscores may part their digits. A whole number
is decimal with an optional sign, or hexadecimal, octal or binary without one,
and has 128 bits at most; a real number has a fraction or an exponent, and has to
be finite unless it is infinity or no number by name.
-/

namespace JourneyPlanner.Outline

def digitIn? (base : Nat) (c : Char) : Option Nat :=
  (Text.hexDigit? c).filter fun d => decide (d < base)

/-- Groups of digits, none of them empty. -/
def digits? (base : Nat) (cs : List Char) : Option (List Nat) :=
  let groups := Text.split '_' cs
  if groups.any List.isEmpty then none else groups.flatten.mapM (digitIn? base)

def valueIn (base : Nat) (ds : List Nat) : Nat :=
  ds.foldl (fun n d => base * n + d) 0

/-- Decimal digits without a zero in front of them. -/
def whole? (cs : List Char) : Option (List Nat) :=
  (digits? 10 cs).filter fun ds => ds.length == 1 || ds.head? != some 0

/-- Whether there is a minus sign, and what follows the sign. -/
def signed : List Char → Bool × List Char
  | '-' :: cs => (true, cs)
  | '+' :: cs => (false, cs)
  | cs => (false, cs)

def unboundedInteger? : List Char → Option Int
  | '0' :: 'x' :: cs => (digits? 16 cs).map fun ds => valueIn 16 ds
  | '0' :: 'o' :: cs => (digits? 8 cs).map fun ds => valueIn 8 ds
  | '0' :: 'b' :: cs => (digits? 2 cs).map fun ds => valueIn 2 ds
  | cs =>
    let (negative, cs) := signed cs
    (whole? cs).map fun ds => if negative then -(valueIn 10 ds : Int) else valueIn 10 ds

def integer? (cs : List Char) : Option Int :=
  (unboundedInteger? cs).filter fun n => decide (-Int.pow 2 127 ≤ n) && decide (n < Int.pow 2 128)

/-- `m` times that power of ten, unless it is too large. -/
def finite? (m : Nat) (exponent : Int) : Option Float :=
  let magnitude := (Nat.toDigits 10 m).length + exponent
  if m = 0 ∨ magnitude < -400 then some 0.0
  else if 400 < magnitude then none
  else
    let x := Float.ofScientific m (decide (exponent < 0)) exponent.natAbs
    if x.isInf then none else some x

def isDigitOrUnderscore (c : Char) : Bool :=
  c.isDigit || c == '_'

/-- The digits after a point, if there is one. -/
def fraction? : List Char → Option (List Nat × List Char)
  | '.' :: cs =>
    (digits? 10 (cs.takeWhile isDigitOrUnderscore)).map fun ds =>
      (ds, cs.dropWhile isDigitOrUnderscore)
  | cs => some ([], cs)

/-- The exponent that is left, zero if nothing is. -/
def exponent? : List Char → Option Int
  | [] => some 0
  | c :: cs =>
    if c = 'e' ∨ c = 'E' then
      let (negative, cs) := signed cs
      (digits? 10 cs).map fun ds => if negative then -(valueIn 10 ds : Int) else valueIn 10 ds
    else none

def magnitude? (cs : List Char) : Option Float := do
  let whole ← whole? (cs.takeWhile isDigitOrUnderscore)
  let (fraction, rest) ← fraction? (cs.dropWhile isDigitOrUnderscore)
  let exponent ← exponent? rest
  finite? (valueIn 10 (whole ++ fraction)) (exponent - fraction.length)

def real? (cs : List Char) : Option Float :=
  let (negative, cs) := signed cs
  let x :=
    if cs = ['i', 'n', 'f'] then some (1.0 / 0.0)
    else if cs = ['n', 'a', 'n'] then some (0.0 / 0.0)
    else magnitude? cs
  x.map fun x => if negative then -x else x

end JourneyPlanner.Outline
