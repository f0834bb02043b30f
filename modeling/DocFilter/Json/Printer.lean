import DocFilter.Binary64.Text
import DocFilter.Json.Basic

/-!
# Writing JSON

`Json.compact` writes a value without blanks, `Json.pretty` on several lines with two blanks for
each level.
-/

namespace DocFilter.Json

/-- A hexadecimal digit in lower case. -/
def hexDigit (n : Nat) : Char :=
  if n < 10 then Char.ofNat ('0'.toNat + n) else Char.ofNat ('a'.toNat + (n - 10))

/-- How a character is written between quotes. -/
def escape (c : Char) : List Char :=
  match c with
  | '"' => ['\\', '"']
  | '\\' => ['\\', '\\']
  | '\x08' => ['\\', 'b']
  | '\x0c' => ['\\', 'f']
  | '\n' => ['\\', 'n']
  | '\r' => ['\\', 'r']
  | '\t' => ['\\', 't']
  | c =>
    if c.toNat < 32 then ['\\', 'u', '0', '0', hexDigit (c.toNat / 16), hexDigit (c.toNat % 16)]
    else [c]

/-- A string between quotes. -/
def quote (s : String) : String := "\"" ++ String.ofList (s.toList.flatMap escape) ++ "\""

/-- The text of a number. -/
def Number.text : Number → String
  | .nat n => toString n.toNat
  | .neg i _ => toString i.toInt
  | .real x _ => x.json

mutual

/-- The text of a value, without blanks. -/
def compact : Json → String
  | .null => "null"
  | .bool true => "true"
  | .bool false => "false"
  | .num n => n.text
  | .str s => quote s
  | .arr items => "[" ++ ",".intercalate (compactItems items) ++ "]"
  | .obj entries => "\x7b" ++ ",".intercalate (compactEntries entries) ++ "\x7d"

/-- The texts of the items of an array. -/
def compactItems : List Json → List String
  | [] => []
  | j :: js => j.compact :: compactItems js

/-- The texts of the entries of an object. -/
def compactEntries : List (String × Json) → List String
  | [] => []
  | (k, j) :: es => (quote k ++ ":" ++ j.compact) :: compactEntries es

end

/-- Puts the members of a container on lines of their own, two blanks further in than the container
at `level`. -/
def block (level : Nat) (opening closing : String) : List String → String
  | [] => opening ++ closing
  | members =>
    let margin (n : Nat) := "\n" ++ String.ofList (List.replicate (2 * n) ' ')
    opening ++ ",".intercalate (members.map (margin (level + 1) ++ ·)) ++ margin level ++ closing

mutual

/-- The text of a value at a level of nesting. -/
def prettyAt (level : Nat) : Json → String
  | .arr items => block level "[" "]" (prettyItems (level + 1) items)
  | .obj entries => block level "\x7b" "\x7d" (prettyEntries (level + 1) entries)
  | .null => "null"
  | .bool true => "true"
  | .bool false => "false"
  | .num n => n.text
  | .str s => quote s

/-- The texts of the items of an array. -/
def prettyItems (level : Nat) : List Json → List String
  | [] => []
  | j :: js => j.prettyAt level :: prettyItems level js

/-- The texts of the entries of an object. -/
def prettyEntries (level : Nat) : List (String × Json) → List String
  | [] => []
  | (k, j) :: es => (quote k ++ ": " ++ j.prettyAt level) :: prettyEntries level es

end

/-- The text of a value on several lines. -/
def pretty (j : Json) : String := j.prettyAt 0

end DocFilter.Json
