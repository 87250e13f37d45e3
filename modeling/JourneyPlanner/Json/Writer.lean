import JourneyPlanner.Json.Number

/-!
JSON texts of values, on one line or indented by two blanks a level. A value
that could not be read is written as null.
-/

namespace JourneyPlanner.Json

def hexDigit (n : Nat) : Char :=
  Nat.digitChar (n % 16)

def escapeChar (c : Char) : List Char :=
  match c with
  | '"' => ['\\', '"']
  | '\\' => ['\\', '\\']
  | '\x08' => ['\\', 'b']
  | '\x0c' => ['\\', 'f']
  | '\n' => ['\\', 'n']
  | '\r' => ['\\', 'r']
  | '\t' => ['\\', 't']
  | c =>
    if c.toNat < 32 then ['\\', 'u', '0', '0', hexDigit (c.toNat / 16), hexDigit c.toNat]
    else [c]

def quote (s : String) : String :=
  String.ofList ('"' :: s.toList.flatMap escapeChar ++ ['"'])

def intText (n : Int) : String :=
  String.ofList (if n < 0 then '-' :: digitsText n.natAbs else digitsText n.natAbs)

mutual

def compact : Json → String
  | .null | .unreadable => "null"
  | .bool b => if b then "true" else "false"
  | .int n => intText n
  | .real x => String.ofList (realText x)
  | .str s => quote s
  | .arr items => "[" ++ String.intercalate "," (compactItems items) ++ "]"
  | .obj members => "\x7b" ++ String.intercalate "," (compactMembers members) ++ "\x7d"

def compactItems : List Json → List String
  | [] => []
  | j :: js => compact j :: compactItems js

def compactMembers : List (String × Json) → List String
  | [] => []
  | (k, v) :: rest => (quote k ++ ":" ++ compact v) :: compactMembers rest

end

def indentation (depth : Nat) : String :=
  "\n" ++ String.ofList (List.replicate (2 * depth) ' ')

/-- Encloses the parts of a list or object, each on a line of its own. -/
def block (depth : Nat) (opening closing : String) (parts : List String) : String :=
  match parts with
  | [] => opening ++ closing
  | parts =>
    opening ++ indentation (depth + 1) ++ String.intercalate ("," ++ indentation (depth + 1)) parts
      ++ indentation depth ++ closing

mutual

def indented (depth : Nat) : Json → String
  | .arr items => block depth "[" "]" (indentedItems (depth + 1) items)
  | .obj members => block depth "\x7b" "\x7d" (indentedMembers (depth + 1) members)
  | j => compact j

def indentedItems (depth : Nat) : List Json → List String
  | [] => []
  | j :: js => indented depth j :: indentedItems depth js

def indentedMembers (depth : Nat) : List (String × Json) → List String
  | [] => []
  | (k, v) :: rest => (quote k ++ ": " ++ indented depth v) :: indentedMembers depth rest

end

def pretty (j : Json) : String :=
  indented 0 j

end JourneyPlanner.Json
