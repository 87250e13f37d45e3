import JourneyPlanner.Outline.Line
import JourneyPlanner.Outline.Moment
import JourneyPlanner.Outline.Number
import JourneyPlanner.Outline.Quoted
import JourneyPlanner.Outline.Table

/-!
Reading an outline: lines with a key, an equals sign and a value, and headings in
brackets for the tables that the entries after them belong to. Values are quoted
texts, numbers, truth values, moments, lists and tables. Lists and tables within
an entry may go over several lines; a key within one does not. Nothing is more
than 80 deep: neither a key with points nor lists and tables in each other.
-/

namespace JourneyPlanner.Outline

/-- The most parts of a key, and the most lists and tables around a value. -/
def greatestDepth : Nat := 80

def isKeyChar (c : Char) : Bool :=
  c.isAlphanum || c == '_' || c == '-'

def key? : List Char → Option (String × List Char)
  | [] => none
  | c :: cs =>
    if c = '"' ∨ c = singleQuote then quotedKey? c cs
    else
      let key := (c :: cs).takeWhile isKeyChar
      if key.isEmpty then none else some (String.ofList key, (c :: cs).dropWhile isKeyChar)

/-- At most that many parts of a key, with points between them and blanks around
them. -/
def keyParts? : Nat → List Char → Option (List String × List Char)
  | 0, _ => none
  | count + 1, cs => do
    let (key, cs) ← key? (skipGap cs)
    match skipGap cs with
    | '.' :: cs =>
      let (path, cs) ← keyParts? count cs
      return (key :: path, cs)
    | cs => return ([key], cs)

/-- All parts of a key, and what follows it. -/
def keyPath? (cs : List Char) : Option (List String × List Char) :=
  keyParts? greatestDepth cs

/-- Where a value without quotes ends. -/
def wordEnds : List Char :=
  [' ', '\t', '\r', '\n', '#', ',', '=', '[', ']', '\x7b', '\x7d', '"', singleQuote]

def isWordChar (c : Char) : Bool :=
  !wordEnds.contains c

/-- A value without quotes, and what follows it. One blank may stand between the
date and the time of a moment. -/
def takeWord (cs : List Char) : List Char × List Char :=
  let word := cs.takeWhile isWordChar
  let rest := cs.drop word.length
  match rest with
  | ' ' :: d :: more =>
    if isDate word && d.isDigit then
      let time := (d :: more).takeWhile isWordChar
      (word ++ ' ' :: time, (d :: more).drop time.length)
    else (word, rest)
  | rest => (word, rest)

/-- A moment reads as a table of its own kind. -/
def wordValue? (word : List Char) : Option Json :=
  if word = ['t', 'r', 'u', 'e'] then some (.bool true)
  else if word = ['f', 'a', 'l', 's', 'e'] then some (.bool false)
  else if isMoment word then some (.obj [("moment", .str (String.ofList word))])
  else
    match integer? word with
    | some n => some (.int n)
    | none => if (unboundedInteger? word).isSome then none else (real? word).map .real

mutual

/-- One value; `depth` bounds the nesting that is left. -/
def value? (fuel depth : Nat) (cs : List Char) : Option (Json × List Char) :=
  match fuel with
  | 0 => none
  | fuel + 1 =>
    match skipGap cs, depth with
    | '[' :: _, 0 => none
    | '\x7b' :: _, 0 => none
    | '[' :: rest, depth + 1 => items? fuel depth [] rest
    | '\x7b' :: rest, depth + 1 => entries? fuel depth [] rest
    | c :: rest, _ =>
      if c = '"' ∨ c = singleQuote then
        (quoted? c rest).map fun (s, rest) => (.str s, rest)
      else
        let (word, rest) := takeWord (c :: rest)
        (wordValue? word).map fun v => (v, rest)
    | [], _ => none

/-- The items from here to the closing bracket, before which a comma may stand. -/
def items? (fuel depth : Nat) (acc : List Json) (cs : List Char) : Option (Json × List Char) :=
  match fuel with
  | 0 => none
  | fuel + 1 =>
    match skipLines cs with
    | ']' :: rest => some (.arr acc.reverse, rest)
    | cs =>
      match value? fuel depth cs with
      | none => none
      | some (v, rest) =>
        match skipLines rest with
        | ',' :: rest => items? fuel depth (v :: acc) rest
        | ']' :: rest => some (.arr (v :: acc).reverse, rest)
        | _ => none

/-- The entries from here to the closing brace, before which a comma may stand.
Lines may end on both sides of an equals sign. -/
def entries? (fuel depth : Nat) (ms : Members) (cs : List Char) : Option (Json × List Char) :=
  match fuel with
  | 0 => none
  | fuel + 1 =>
    match skipLines cs with
    | '\x7d' :: rest => some (.obj (membersJson ms), rest)
    | cs =>
      match keyPath? cs with
      | none => none
      | some (path, rest) =>
        match skipLines rest with
        | '=' :: rest =>
          match value? fuel depth (skipLines rest) with
          | none => none
          | some (v, rest) =>
            match insertAt? v path ms with
            | none => none
            | some ms =>
              match skipLines rest with
              | ',' :: rest => entries? fuel depth ms rest
              | '\x7d' :: rest => some (.obj (membersJson ms), rest)
              | _ => none
        | _ => none

end

/-- The tables read so far, and the path of the heading that is open. -/
structure State where
  root : Members := []
  heading : List String := []

/-- Opens the table at a path, or the next item of the list there. -/
def State.openPath? (s : State) (isItem : Bool) (path : List String) : Option State := do
  let key ← path.getLast?
  let alter := if isItem then openItem? key else openTable? key
  return ⟨← alterAt? alter path.dropLast s.root, path⟩

def State.add? (s : State) (path : List String) (value : Json) : Option State := do
  return { s with root := ← alterAt? (insertAt? value path) s.heading s.root }

/-- One line, or the lines of one entry, and what follows. -/
def line? (s : State) (cs : List Char) : Option (State × List Char) := do
  match skipGap cs with
  | '[' :: '[' :: rest =>
    match ← keyPath? rest with
    | (path, ']' :: ']' :: rest) => return (← s.openPath? true path, rest)
    | _ => none
  | '[' :: rest =>
    match ← keyPath? rest with
    | (path, ']' :: rest) => return (← s.openPath? false path, rest)
    | _ => none
  | cs =>
    if (nextLine? cs).isSome then return (s, cs)
    else
      match ← keyPath? cs with
      | (path, '=' :: rest) =>
        let (v, rest) ← value? (2 * cs.length + 2) greatestDepth rest
        return (← s.add? path v, rest)
      | _ => none

def lines? : Nat → State → List Char → Option State
  | _, s, [] => some s
  | 0, _, _ => none
  | fuel + 1, s, cs =>
    match line? s cs with
    | none => none
    | some (s, rest) =>
      match nextLine? rest with
      | none => none
      | some rest => lines? fuel s rest

/-- A byte order mark may stand in front of the text. -/
def skipMark : List Char → List Char
  | '\ufeff' :: cs => cs
  | cs => cs

/-- The table that the text describes. -/
def read? (text : String) : Option Json :=
  let cs := skipMark text.toList
  (lines? (cs.length + 1) {} cs).map fun s => .obj (membersJson s.root)

end JourneyPlanner.Outline
