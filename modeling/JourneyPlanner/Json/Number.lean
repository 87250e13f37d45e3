import JourneyPlanner.Decimal.Shortest
import JourneyPlanner.Json.Basic

/-!
Numbers in JSON texts. A numeral without fraction and exponent is a whole number
while it fits 64 bits, and a floating point number beyond that; a negative zero
is always floating point. Digits after the significand is full are not read into
it. Writing uses the shortest decimal, positional up to sixteen digits before
the point and four zeros after it.
-/

namespace JourneyPlanner.Json

def greatestWord : Nat := 18446744073709551615

/-- The significand while it fits a word, and the power of ten beside it. -/
structure Parts where
  significand : Nat
  exponent : Int

def Parts.fits (p : Parts) (d : Nat) : Bool :=
  decide (10 * p.significand + d ≤ greatestWord)

/-- Digits before the point; once the word is full a digit only counts. -/
def Parts.addWhole : Parts → List Nat → Bool → Parts
  | p, [], _ => p
  | p, d :: ds, isFull =>
    if isFull || !p.fits d then addWhole ⟨p.significand, p.exponent + 1⟩ ds true
    else addWhole ⟨10 * p.significand + d, p.exponent⟩ ds false

/-- Digits after the point; once the word is full the rest is ignored. -/
def Parts.addFraction : Parts → List Nat → Parts
  | p, [] => p
  | p, d :: ds =>
    if p.fits d then addFraction ⟨10 * p.significand + d, p.exponent - 1⟩ ds else p

def powerOfTen (k : Nat) : Float :=
  Float.ofScientific 1 false k

/-- Divides by powers of ten that a floating point number can hold. -/
def scaleDown : Nat → Float → Nat → Float
  | 0, x, _ => x
  | fuel + 1, x, k =>
    if k ≤ 308 then x / powerOfTen k else scaleDown fuel (x / powerOfTen 308) (k - 308)

/-- No value when the number is too large. -/
def Parts.toFloat? (p : Parts) : Option Float :=
  let x := p.significand.toUInt64.toFloat
  if p.significand = 0 then some 0.0
  else if 0 ≤ p.exponent then
    if p.exponent ≤ 308 then
      let y := x * powerOfTen p.exponent.toNat
      if y.isInf then none else some y
    else none
  else
    -- after two such divisions nothing is left of a 64 bit significand
    some (scaleDown 4 x (min (-p.exponent).toNat 1232))

def negateIf (negative : Bool) (x : Float) : Float :=
  if negative then -x else x

/-- The value of a numeral with the given digits; `none` if it is too large. -/
def ofDigits? (negative : Bool) (whole : List Nat) (fraction : Option (List Nat))
    (exponent : Option Int) : Option Json :=
  let parts := Parts.addWhole ⟨0, 0⟩ whole false
  match fraction, exponent with
  | none, none =>
    if parts.exponent = 0 then
      if !negative then some (.int parts.significand)
      else if parts.significand = 0 ∨ 9223372036854775808 < parts.significand then
        some (.real (-parts.significand.toUInt64.toFloat))
      else some (.int (-(parts.significand : Int)))
    else (parts.toFloat?).map fun x => .real (negateIf negative x)
  | fraction, exponent =>
    let parts := parts.addFraction (fraction.getD [])
    let parts := { parts with exponent := parts.exponent + exponent.getD 0 }
    (parts.toFloat?).map fun x => .real (negateIf negative x)

def digitsText (n : Nat) : List Char :=
  Nat.toDigits 10 n

/-- Between these exponents of the leading digit numbers are written without an
exponent. -/
def positionalLimits : Int × Int := (-5, 16)

def scientificText (s : Decimal.Scientific) : List Char :=
  let ds := digitsText s.digits
  let point : Int := ds.length + s.exponent
  if 0 ≤ s.exponent ∧ point ≤ positionalLimits.2 then
    ds ++ List.replicate s.exponent.toNat '0' ++ ['.', '0']
  else if 0 < point ∧ point ≤ positionalLimits.2 then
    ds.take point.toNat ++ '.' :: ds.drop point.toNat
  else if positionalLimits.1 < point ∧ point ≤ 0 then
    '0' :: '.' :: List.replicate (-point).toNat '0' ++ ds
  else
    let e := point - 1
    let mantissa := match ds with
      | [] => []
      | [d] => [d]
      | d :: rest => d :: '.' :: rest
    mantissa ++ 'e' :: (if e < 0 then ['-'] else []) ++ digitsText e.natAbs

/-- Numbers without a finite value are written as null. -/
def realText (x : Float) : List Char :=
  let bits := x.toBits.toNat
  let negative := decide (Nat.pow 2 63 ≤ bits)
  let magnitude := bits % Nat.pow 2 63
  let body :=
    if magnitude = 0 then ['0', '.', '0']
    else scientificText (Decimal.shortest (Decimal.intervalOfBits magnitude))
  if 2047 ≤ magnitude / Nat.pow 2 52 then ['n', 'u', 'l', 'l']
  else if negative then '-' :: body else body

end JourneyPlanner.Json
