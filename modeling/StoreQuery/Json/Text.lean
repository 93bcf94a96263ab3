import StoreQuery.Json.Basic
import StoreQuery.Number.Text

/-!
# Writing JSON

`compact` writes a value without blanks. `pretty` puts every item and member on a line of its
own, indented by two blanks per level; empty arrays and objects stay on one line. In texts only
the quote, the backslash and control characters are escaped.
-/

namespace StoreQuery

def Number.toText : Number → String
  | .whole n => Text.ofInt n.val
  | .double x => x.toDataText

namespace Json

/-- One hexadecimal digit, in lower case. -/
def hexDigit (n : Nat) : Char := Nat.digitChar n

/-- How a character is written inside a text. -/
def escapeChar (c : Char) : List Char :=
  if c = '"' then ['\\', '"']
  else if c = '\\' then ['\\', '\\']
  else if c = '\x08' then ['\\', 'b']
  else if c = '\x0c' then ['\\', 'f']
  else if c = '\n' then ['\\', 'n']
  else if c = '\r' then ['\\', 'r']
  else if c = '\t' then ['\\', 't']
  else if c.toNat < 0x20 then
    ['\\', 'u', '0', '0', hexDigit (c.toNat / 16), hexDigit (c.toNat % 16)]
  else [c]

/-- A text between quotes. -/
def quote (text : String) : String :=
  "\"" ++ String.ofList (text.toList.flatMap escapeChar) ++ "\""

/-- The text of a value that is neither an array nor an object. -/
def atomText : Json → String
  | .null => "null"
  | .bool true => "true"
  | .bool false => "false"
  | .num n => n.toText
  | .str s => quote s
  | .arr _ => "[]"
  | .obj _ => "\x7b\x7d"

/-! ## Without blanks -/

mutual

/-- The text of a value without blanks. -/
def compact : Json → String
  | .arr items => "[" ++ compactItems items ++ "]"
  | .obj members => "\x7b" ++ compactMembers members ++ "\x7d"
  | value => atomText value

def compactItems : List Json → String
  | [] => ""
  | [value] => compact value
  | value :: rest => compact value ++ "," ++ compactItems rest

def compactMembers : List (String × Json) → String
  | [] => ""
  | [(name, value)] => quote name ++ ":" ++ compact value
  | (name, value) :: rest => quote name ++ ":" ++ compact value ++ "," ++ compactMembers rest

end

/-! ## With indentation -/

/-- A line break followed by the indentation of a level. -/
def lineBreak (level : Nat) : String := String.ofList ('\n' :: List.replicate (2 * level) ' ')

mutual

/-- The text of a value that starts at a given level of indentation. -/
def prettyAt (level : Nat) : Json → String
  | .arr (value :: rest) =>
    "[" ++ prettyItems (level + 1) (value :: rest) ++ lineBreak level ++ "]"
  | .obj (member :: rest) =>
    "\x7b" ++ prettyMembers (level + 1) (member :: rest) ++ lineBreak level ++ "\x7d"
  | value => atomText value

def prettyItems (level : Nat) : List Json → String
  | [] => ""
  | [value] => lineBreak level ++ prettyAt level value
  | value :: rest => lineBreak level ++ prettyAt level value ++ "," ++ prettyItems level rest

def prettyMembers (level : Nat) : List (String × Json) → String
  | [] => ""
  | [(name, value)] => lineBreak level ++ quote name ++ ": " ++ prettyAt level value
  | (name, value) :: rest =>
    lineBreak level ++ quote name ++ ": " ++ prettyAt level value ++ "," ++
      prettyMembers level rest

end

/-- The indented text of a value. -/
def pretty (value : Json) : String := prettyAt 0 value

end Json

end StoreQuery
