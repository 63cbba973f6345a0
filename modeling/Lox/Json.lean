/-!
# JSON

- `Json.quote` writes a text between double quotes.
- `Json.compact` writes a value on one line without blanks; `Json.pretty` puts every member on a
  line of its own, two more blanks in at each level.
-/

namespace Lox

/-- A JSON value. Fields keep their order; a number is given as text. -/
inductive Json where
  | literal (text : String)
  | text (value : String)
  | list (items : List Json)
  | record (fields : List (String × Json))

namespace Json

/-- Four hexadecimal digits of a character below `0x10000`. -/
def hexDigits (c : Char) : List Char :=
  let ds := Nat.toDigits 16 c.toNat
  List.replicate (4 - ds.length) '0' ++ ds

/-- A character as it stands in a quoted text. Only quotes, backslashes and control characters
are escaped. -/
def escape : Char → List Char
  | '"' => ['\\', '"']
  | '\\' => ['\\', '\\']
  | '\n' => ['\\', 'n']
  | '\r' => ['\\', 'r']
  | '\t' => ['\\', 't']
  | '\x08' => ['\\', 'b']
  | '\x0c' => ['\\', 'f']
  | c => if c.toNat < 0x20 then '\\' :: 'u' :: hexDigits c else [c]

/-- A text between double quotes. -/
def quote (s : String) : String :=
  "\"" ++ String.ofList (s.toList.flatMap escape) ++ "\""

mutual

/-- A value on one line. -/
def compact : Json → String
  | .literal written => written
  | .text value => quote value
  | .list items => "[" ++ ",".intercalate (compactItems items) ++ "]"
  | .record fields => "\x7b" ++ ",".intercalate (compactFields fields) ++ "\x7d"

def compactItems : List Json → List String
  | [] => []
  | v :: vs => v.compact :: compactItems vs

def compactFields : List (String × Json) → List String
  | [] => []
  | (k, v) :: fs => (quote k ++ ":" ++ v.compact) :: compactFields fs

end

/-- A new line at a depth of nesting. -/
def newLine (depth : Nat) : String := "\n" ++ String.ofList (List.replicate (2 * depth) ' ')

/-- The members of a list or record between two brackets, each on a line of its own. -/
def bracketed (depth : Nat) (left right : String) (members : List String) : String :=
  if members.isEmpty then left ++ right
  else
    left ++ newLine (depth + 1) ++ ("," ++ newLine (depth + 1)).intercalate members ++
      newLine depth ++ right

mutual

/-- A value with one member a line, inside `depth` levels. -/
def prettyAt (depth : Nat) : Json → String
  | .literal written => written
  | .text value => quote value
  | .list items => bracketed depth "[" "]" (prettyItems (depth + 1) items)
  | .record fields => bracketed depth "\x7b" "\x7d" (prettyFields (depth + 1) fields)

def prettyItems (depth : Nat) : List Json → List String
  | [] => []
  | v :: vs => v.prettyAt depth :: prettyItems depth vs

def prettyFields (depth : Nat) : List (String × Json) → List String
  | [] => []
  | (k, v) :: fs => (quote k ++ ": " ++ v.prettyAt depth) :: prettyFields depth fs

end

/-- A value with one member a line. -/
def pretty (v : Json) : String := v.prettyAt 0

end Json

end Lox
