import JourneyPlanner.Json.Number
import JourneyPlanner.Text.Numeral

/-!
Reading JSON texts. Strings take the escapes of the standard, surrogates only in
pairs; lists and objects nest at most 127 deep. What only breaks these bounds is
passed over as unreadable, at any depth, so that a text may be read in parts;
what breaks the grammar makes the whole text unusable.
-/

namespace JourneyPlanner.Json

def isSpace (c : Char) : Bool :=
  c == ' ' || c == '\t' || c == '\n' || c == '\r'

def skipSpace (cs : List Char) : List Char :=
  cs.dropWhile isSpace

def hexQuad? (a b c d : Char) : Option Nat := do
  let high := (← Text.hexDigit? a) * 16 + (← Text.hexDigit? b)
  return high * 256 + (← Text.hexDigit? c) * 16 + (← Text.hexDigit? d)

def simpleEscape? : Char → Option Char
  | '"' => some '"'
  | '\\' => some '\\'
  | '/' => some '/'
  | 'b' => some '\x08'
  | 'f' => some '\x0c'
  | 'n' => some '\n'
  | 'r' => some '\r'
  | 't' => some '\t'
  | _ => none

def isHighSurrogate (u : Nat) : Bool :=
  decide (0xD800 ≤ u) && decide (u < 0xDC00)

def isLowSurrogate (u : Nat) : Bool :=
  decide (0xDC00 ≤ u) && decide (u < 0xE000)

/-- One character of a string, escaped or not, and what follows it; `none` at the
closing quote and at a fault. -/
def stringChar? : List Char → Option (Char × List Char)
  | '"' :: _ => none
  | '\\' :: 'u' :: a :: b :: c :: d :: cs => do
    let u ← hexQuad? a b c d
    if isHighSurrogate u then
      match cs with
      | '\\' :: 'u' :: a :: b :: c :: d :: cs =>
        let l ← hexQuad? a b c d
        if isLowSurrogate l then
          return (Char.ofNat (0x10000 + (u - 0xD800) * 0x400 + (l - 0xDC00)), cs)
        else none
      | _ => none
    else if isLowSurrogate u then none
    else return (Char.ofNat u, cs)
  | '\\' :: c :: cs => (simpleEscape? c).map fun c => (c, cs)
  | '\\' :: [] => none
  | c :: cs => if c.toNat < 32 then none else some (c, cs)
  | [] => none

/-- The characters up to the closing quote, after the opening one. -/
def stringBody? : Nat → List Char → List Char → Option (String × List Char)
  | 0, _, _ => none
  | fuel + 1, acc, cs =>
    match cs with
    | '"' :: rest => some (String.ofList acc.reverse, rest)
    | cs =>
      match stringChar? cs with
      | some (c, rest) => stringBody? fuel (c :: acc) rest
      | none => none

def string? (cs : List Char) : Option (String × List Char) :=
  stringBody? (cs.length + 1) [] cs

def digitValue (c : Char) : Nat :=
  c.toNat - '0'.toNat

def takeDigits (cs : List Char) : List Nat × List Char :=
  ((cs.takeWhile Char.isDigit).map digitValue, cs.dropWhile Char.isDigit)

/-- A fraction has at least one digit. -/
def fraction? : List Char → Option (Option (List Nat) × List Char)
  | '.' :: cs =>
    match takeDigits cs with
    | ([], _) => none
    | (ds, rest) => some (some ds, rest)
  | cs => some (none, cs)

def exponent? : List Char → Option (Option Int × List Char)
  | cs =>
    let digitsAfter (sign : Int) (cs : List Char) : Option (Option Int × List Char) :=
      match takeDigits cs with
      | ([], _) => none
      | (ds, rest) => some (some (sign * (ds.foldl (fun n d => 10 * n + d) 0 : Nat)), rest)
    match cs with
    | c :: cs =>
      if c = 'e' ∨ c = 'E' then
        match cs with
        | '+' :: cs => digitsAfter 1 cs
        | '-' :: cs => digitsAfter (-1) cs
        | cs => digitsAfter 1 cs
      else some (none, c :: cs)
    | [] => some (none, [])

/-- No zero stands in front of another digit. A number that is too large cannot
be read. -/
def number? (cs : List Char) : Option (Json × List Char) := do
  let (negative, cs) := match cs with
    | '-' :: cs => (true, cs)
    | cs => (false, cs)
  let (whole, cs) := takeDigits cs
  if whole.isEmpty ∨ (whole.head? = some 0 ∧ 1 < whole.length) then none
  else
    let (fraction, cs) ← fraction? cs
    let (exponent, cs) ← exponent? cs
    return ((ofDigits? negative whole fraction exponent).getD .unreadable, cs)

def keyword? (cs : List Char) : Option (Json × List Char) :=
  match cs with
  | 'n' :: 'u' :: 'l' :: 'l' :: rest => some (.null, rest)
  | 't' :: 'r' :: 'u' :: 'e' :: rest => some (.bool true, rest)
  | 'f' :: 'a' :: 'l' :: 's' :: 'e' :: rest => some (.bool false, rest)
  | _ => none

/-- Passes over a string, after its opening quote; escapes need not make sense
together. -/
def skipString? : List Char → Option (List Char)
  | '"' :: cs => some cs
  | '\\' :: 'u' :: a :: b :: c :: d :: cs => do
    let _ ← hexQuad? a b c d
    skipString? cs
  | '\\' :: c :: cs => do
    let _ ← simpleEscape? c
    skipString? cs
  | c :: cs => if c.toNat < 32 then none else skipString? cs
  | [] => none

inductive Enclosure where
  | list
  | object

/-- What comes next while a value is passed over. -/
inductive Skipping where
  | value
  | name
  /-- Behind a value: a comma, or the end of what encloses it. -/
  | separator

/-- Passes over a value and all that is left of the enclosures around it, the
innermost first. -/
def skip? : Nat → Skipping → List Enclosure → List Char → Option (List Char)
  | 0, _, _, _ => none
  | _ + 1, .separator, [], cs => some cs
  | fuel + 1, .separator, e :: outer, cs =>
    match e, skipSpace cs with
    | .list, ',' :: rest => skip? fuel .value (e :: outer) rest
    | .list, ']' :: rest => skip? fuel .separator outer rest
    | .object, ',' :: rest => skip? fuel .name (e :: outer) rest
    | .object, '\x7d' :: rest => skip? fuel .separator outer rest
    | _, _ => none
  | fuel + 1, .name, es, cs =>
    match skipSpace cs with
    | '"' :: rest =>
      match (skipString? rest).map skipSpace with
      | some (':' :: rest) => skip? fuel .value es rest
      | _ => none
    | _ => none
  | fuel + 1, .value, es, cs =>
    match skipSpace cs with
    | '"' :: rest =>
      match skipString? rest with
      | some rest => skip? fuel .separator es rest
      | none => none
    | '[' :: rest =>
      match skipSpace rest with
      | ']' :: rest => skip? fuel .separator es rest
      | rest => skip? fuel .value (.list :: es) rest
    | '\x7b' :: rest =>
      match skipSpace rest with
      | '\x7d' :: rest => skip? fuel .separator es rest
      | rest => skip? fuel .name (.object :: es) rest
    | cs =>
      match (number? cs).or (keyword? cs) with
      | some (_, rest) => skip? fuel .separator es rest
      | none => none

/-- What follows the value, or the rest of the enclosures, that cannot be read. -/
def unreadable? (next : Skipping) (es : List Enclosure) (cs : List Char) :
    Option (Json × List Char) :=
  (skip? (cs.length + 1) next es cs).map fun rest => (.unreadable, rest)

/-- A string, after its opening quote. -/
def text? (cs : List Char) : Option (Json × List Char) :=
  match string? cs with
  | some (s, rest) => some (.str s, rest)
  | none => (skipString? cs).map fun rest => (.unreadable, rest)

mutual

/-- One value; `depth` bounds the nesting that is left. -/
def value? (fuel depth : Nat) (cs : List Char) : Option (Json × List Char) :=
  match fuel with
  | 0 => none
  | fuel + 1 =>
    match skipSpace cs with
    | '"' :: rest => text? rest
    | '[' :: rest =>
      match depth with
      | 0 => unreadable? .value [] ('[' :: rest)
      | depth + 1 =>
        match skipSpace rest with
        | ']' :: rest => some (.arr [], rest)
        | rest => items? fuel depth [] rest
    | '\x7b' :: rest =>
      match depth with
      | 0 => unreadable? .value [] ('\x7b' :: rest)
      | depth + 1 =>
        match skipSpace rest with
        | '\x7d' :: rest => some (.obj [], rest)
        | rest => members? fuel depth [] rest
    | cs => (number? cs).or (keyword? cs)

/-- The items from here to the closing bracket. -/
def items? (fuel depth : Nat) (acc : List Json) (cs : List Char) : Option (Json × List Char) :=
  match fuel with
  | 0 => none
  | fuel + 1 =>
    match value? fuel depth cs with
    | none => none
    | some (v, rest) =>
      match skipSpace rest with
      | ',' :: rest => items? fuel depth (v :: acc) rest
      | ']' :: rest => some (.arr (v :: acc).reverse, rest)
      | _ => none

/-- The members from here to the closing brace. -/
def members? (fuel depth : Nat) (acc : List (String × Json)) (cs : List Char) :
    Option (Json × List Char) :=
  match fuel with
  | 0 => none
  | fuel + 1 =>
    match skipSpace cs with
    | '"' :: rest =>
      match string? rest with
      | none => unreadable? .name [.object] ('"' :: rest)
      | some (k, rest) =>
        match skipSpace rest with
        | ':' :: rest =>
          match value? fuel depth rest with
          | none => none
          | some (v, rest) =>
            match skipSpace rest with
            | ',' :: rest => members? fuel depth ((k, v) :: acc) rest
            | '\x7d' :: rest => some (.obj ((k, v) :: acc).reverse, rest)
            | _ => none
        | _ => none
    | _ => none

end

def greatestDepth : Nat := 127

/-- The value of a whole text, parts of which may be unreadable; blanks may
surround it. -/
def document? (text : String) : Option Json :=
  let cs := text.toList
  match value? (2 * cs.length + 2) greatestDepth cs with
  | some (v, rest) => if (skipSpace rest).isEmpty then some v else none
  | none => none

/-- The value of a whole text, all of which has to be readable. -/
def parse? (text : String) : Option Json :=
  (document? text).filter isReadable

end JourneyPlanner.Json
