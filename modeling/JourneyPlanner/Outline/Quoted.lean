import JourneyPlanner.Outline.Line
import JourneyPlanner.Text.Numeral

/-!
Quoted texts of an outline: double quotes allow escapes, single quotes do not.
One quote encloses a text on one line, three quotes a text of any number of
lines, which may itself end with one or two quotes.
-/

namespace JourneyPlanner.Outline

def singleQuote : Char := '\x27'

def simpleEscape? : Char → Option Char
  | 'b' => some '\x08'
  | 't' => some '\t'
  | 'n' => some '\n'
  | 'f' => some '\x0c'
  | 'r' => some '\r'
  | 'e' => some '\x1b'
  | '"' => some '"'
  | '\\' => some '\\'
  | _ => none

/-- How many hexadecimal digits of a code point follow the letter. -/
def codeLength? : Char → Option Nat
  | 'x' => some 2
  | 'u' => some 4
  | 'U' => some 8
  | _ => none

/-- The character an escape stands for, after its backslash. -/
def escape? : List Char → Option (Char × List Char)
  | [] => none
  | c :: cs =>
    match codeLength? c with
    | none => (simpleEscape? c).map fun c => (c, cs)
    | some n => do
      let code ← (cs.take n).foldlM (fun code c => (Text.hexDigit? c).map fun d => 16 * code + d) 0
      if n ≤ cs.length ∧ code.isValidChar then some (Char.ofNat code, cs.drop n) else none

/-- The rest of a text on one line. -/
def lineText? (quote : Char) : Nat → List Char → List Char → Option (String × List Char)
  | 0, _, _ => none
  | _ + 1, _, [] => none
  | fuel + 1, acc, c :: cs =>
    if c = quote then some (String.ofList acc.reverse, cs)
    else if c = '\\' ∧ quote = '"' then
      match escape? cs with
      | some (c, cs) => lineText? quote fuel (c :: acc) cs
      | none => none
    else if isPlain c then lineText? quote fuel (c :: acc) cs
    else none

/-- At three quotes a text of several lines ends; up to two more belong to it. -/
def closing? (quote : Char) (cs : List Char) : Option (List Char × List Char) :=
  let quotes := (cs.take 5).takeWhile (· == quote)
  if 3 ≤ quotes.length then some (quotes.drop 3, cs.drop quotes.length) else none

/-- Blanks and empty lines after a backslash that ends a line. -/
def skipEmptyLines : Nat → List Char → List Char
  | 0, cs => cs
  | fuel + 1, cs =>
    match lineEnd? (skipGap cs) with
    | some rest => skipEmptyLines fuel rest
    | none => skipGap cs

/-- The rest of a text of several lines. -/
def blockText? (quote : Char) : Nat → List Char → List Char → Option (String × List Char)
  | 0, _, _ => none
  | fuel + 1, acc, cs =>
    match closing? quote cs, lineEnd? cs with
    | some (quotes, rest), _ => some (String.ofList (acc.reverse ++ quotes), rest)
    | none, some rest => blockText? quote fuel ('\n' :: acc) rest
    | none, none =>
      match cs with
      | [] => none
      | c :: cs =>
        if c = '\\' ∧ quote = '"' then
          match lineEnd? (skipGap cs), escape? cs with
          | some rest, _ => blockText? quote fuel acc (skipEmptyLines fuel rest)
          | none, some (c, rest) => blockText? quote fuel (c :: acc) rest
          | none, none => none
        else if isPlain c then blockText? quote fuel (c :: acc) cs
        else none

/-- The text after an opening quote. A line end right after three quotes does
not count. -/
def quoted? (quote : Char) (cs : List Char) : Option (String × List Char) :=
  if cs.take 2 = [quote, quote] then
    let body := cs.drop 2
    blockText? quote (body.length + 1) [] ((lineEnd? body).getD body)
  else lineText? quote (cs.length + 1) [] cs

/-- A quoted key stands on one line. -/
def quotedKey? (quote : Char) (cs : List Char) : Option (String × List Char) :=
  if cs.take 2 = [quote, quote] then none else lineText? quote (cs.length + 1) [] cs

end JourneyPlanner.Outline
