/-!
Lines of an outline. A line ends with a line feed, before which a carriage return
may stand; from a number sign on it is a comment. Control characters other than
the tab stand nowhere.
-/

namespace JourneyPlanner.Outline

def isGap (c : Char) : Bool :=
  c == ' ' || c == '\t'

def skipGap (cs : List Char) : List Char :=
  cs.dropWhile isGap

def isPlain (c : Char) : Bool :=
  c == '\t' || (decide (32 ≤ c.toNat) && decide (c.toNat ≠ 127))

/-- What follows the end of a line. -/
def lineEnd? : List Char → Option (List Char)
  | '\n' :: cs => some cs
  | '\r' :: '\n' :: cs => some cs
  | _ => none

def skipComment : List Char → List Char
  | '#' :: cs => cs.dropWhile isPlain
  | cs => cs

/-- The next line, if only blanks and a comment are left of this one. -/
def nextLine? (cs : List Char) : Option (List Char) :=
  match skipComment (skipGap cs) with
  | [] => some []
  | cs => lineEnd? cs

/-- Passes over blanks, comments and line ends. -/
def skipLinesWithin : Nat → List Char → List Char
  | 0, cs => cs
  | fuel + 1, cs =>
    let cs := skipComment (skipGap cs)
    match lineEnd? cs with
    | some rest => skipLinesWithin fuel rest
    | none => cs

def skipLines (cs : List Char) : List Char :=
  skipLinesWithin (cs.length + 1) cs

end JourneyPlanner.Outline
