import StoreQuery.Json.Basic
import StoreQuery.Number.Text

/-!
# Reading JSON

`Json.read?` reads one value, with blanks around it and nothing else. Arrays and objects may be
nested 127 deep. A repeated member name keeps its first place and takes its last value.

**Numbers.** Without fraction and exponent, and within 64 bits, a number is whole; `-0` and all
others become doubles. A double is read from its leading digits as long as they fit 64 bits; the
digits after those only count for the exponent. A number that overflows is refused.

**Texts.** Control characters must be escaped, and escaped surrogates must come in pairs.
-/

namespace StoreQuery.Json

/-- How deep arrays and objects may be nested. -/
def maxDepth : Nat := 127

/-- Blanks between the tokens. -/
def isBlank (c : Char) : Bool := c = ' ' || c = '\n' || c = '\t' || c = '\r'

def skipBlanks (cs : List Char) : List Char := cs.dropWhile isBlank

/-! ## Numbers -/

/-- Appends digits to a significand as long as it fits 64 bits; gives the digits left over. -/
def takeFitting : Nat → List Char → Nat × List Char
  | value, [] => (value, [])
  | value, c :: cs =>
    let next := 10 * value + (Text.digit? c).getD 0
    if next < UInt64.size then takeFitting next cs else (value, c :: cs)

/-- The double with the given whole digits, fraction digits and exponent. -/
def doubleOf? (negative : Bool) (whole fraction : List Char) (power : Int) : Option Number :=
  let (high, leftWhole) := takeFitting 0 whole
  let (significand, leftFraction) := takeFitting high fraction
  let shift : Int := (leftWhole.length + leftFraction.length : Nat) - (fraction.length : Int)
  (Double.ofScaled? negative significand (shift + power)).map .double

/-- The number of digits without fraction and exponent. -/
def wholeOf? (negative : Bool) (digits : List Char) : Option Number :=
  let magnitude : Int := Text.digitsValue digits
  if negative ∧ magnitude = 0 then doubleOf? negative digits [] 0
  else match Whole.ofInt? (if negative then -magnitude else magnitude) with
    | some n => some (.whole n)
    | none => doubleOf? negative digits [] 0

/-- Reads the digits after a point; there must be one. -/
def readFraction? : List Char → Option (Option (List Char) × List Char)
  | '.' :: cs =>
    match Double.takeDigits cs with
    | ([], _) => none
    | (digits, rest) => some (some digits, rest)
  | cs => some (none, cs)

/-- Reads an exponent, if there is one. -/
def readExponent? : List Char → Option (Option Int × List Char)
  | c :: cs =>
    if c = 'e' ∨ c = 'E' then
      let (negative, cs) := match cs with
        | '+' :: cs => (false, cs)
        | '-' :: cs => (true, cs)
        | cs => (false, cs)
      match Double.takeDigits cs with
      | ([], _) => none
      | (digits, rest) =>
        let power : Int := Text.digitsValue digits
        some (some (if negative then -power else power), rest)
    else some (none, c :: cs)
  | [] => some (none, [])

/-- Reads a number. -/
def readNumber? (cs : List Char) : Option (Number × List Char) := do
  let (negative, cs) := match cs with
    | '-' :: cs => (true, cs)
    | cs => (false, cs)
  let (whole, cs) := Double.takeDigits cs
  match whole with
  | [] => none
  | '0' :: _ :: _ => none
  | _ =>
    let (fraction, cs) ← readFraction? cs
    let (power, cs) ← readExponent? cs
    let number ← match fraction, power with
      | none, none => wholeOf? negative whole
      | _, _ => doubleOf? negative whole (fraction.getD []) (power.getD 0)
    some (number, cs)

/-! ## Texts -/

/-- The value of a hexadecimal digit. -/
def hexValue? (c : Char) : Option Nat :=
  if '0' ≤ c ∧ c ≤ '9' then some (c.toNat - 48)
  else if 'a' ≤ c ∧ c ≤ 'f' then some (c.toNat - 87)
  else if 'A' ≤ c ∧ c ≤ 'F' then some (c.toNat - 55)
  else none

/-- Reads four hexadecimal digits. -/
def readHex? : List Char → Option (Nat × List Char)
  | a :: b :: c :: d :: cs => do
    let a ← hexValue? a
    let b ← hexValue? b
    let c ← hexValue? c
    let d ← hexValue? d
    some (((a * 16 + b) * 16 + c) * 16 + d, cs)
  | _ => none

/-- Reads the code after a backslash and a `u`; two halves of a pair make one character. -/
def readUnicode? (cs : List Char) : Option (Char × List Char) := do
  let (high, cs) ← readHex? cs
  if 0xD800 ≤ high ∧ high < 0xDC00 then
    match cs with
    | '\\' :: 'u' :: cs =>
      let (low, cs) ← readHex? cs
      if 0xDC00 ≤ low ∧ low < 0xE000 then
        some (Char.ofNat (0x10000 + (high - 0xD800) * 0x400 + (low - 0xDC00)), cs)
      else none
    | _ => none
  else if 0xDC00 ≤ high ∧ high < 0xE000 then none
  else some (Char.ofNat high, cs)

/-- Reads what follows a backslash. -/
def readEscape? : List Char → Option (Char × List Char)
  | '"' :: cs => some ('"', cs)
  | '\\' :: cs => some ('\\', cs)
  | '/' :: cs => some ('/', cs)
  | 'b' :: cs => some ('\x08', cs)
  | 'f' :: cs => some ('\x0c', cs)
  | 'n' :: cs => some ('\n', cs)
  | 'r' :: cs => some ('\r', cs)
  | 't' :: cs => some ('\t', cs)
  | 'u' :: cs => readUnicode? cs
  | _ => none

/-- Reads the characters of a text up to the closing quote. The first argument bounds their
number; `done` holds those already read, last first. -/
def readChars? : Nat → List Char → List Char → Option (String × List Char)
  | 0, _, _ => none
  | fuel + 1, done, cs =>
    match cs with
    | '"' :: rest => some (String.ofList done.reverse, rest)
    | '\\' :: rest =>
      (readEscape? rest).bind fun (c, rest) => readChars? fuel (c :: done) rest
    | c :: rest => if c.toNat < 0x20 then none else readChars? fuel (c :: done) rest
    | [] => none

/-- Reads a text whose opening quote has been read. -/
def readText? (cs : List Char) : Option (String × List Char) :=
  readChars? (cs.length + 1) [] cs

/-! ## Values -/

mutual

/-- Reads a value. The first argument bounds the number of steps, `depth` the nesting. -/
def readValue? : Nat → Nat → List Char → Option (Json × List Char)
  | 0, _, _ => none
  | fuel + 1, depth, cs =>
    match skipBlanks cs with
    | 'n' :: 'u' :: 'l' :: 'l' :: rest => some (.null, rest)
    | 't' :: 'r' :: 'u' :: 'e' :: rest => some (.bool true, rest)
    | 'f' :: 'a' :: 'l' :: 's' :: 'e' :: rest => some (.bool false, rest)
    | '"' :: rest => (readText? rest).map fun (text, rest) => (.str text, rest)
    | '[' :: rest =>
      if depth = 0 then none
      else match skipBlanks rest with
        | ']' :: rest => some (.arr [], rest)
        | rest => (readItems? fuel (depth - 1) rest).map fun (items, rest) => (.arr items, rest)
    | '\x7b' :: rest =>
      if depth = 0 then none
      else match skipBlanks rest with
        | '\x7d' :: rest => some (.obj [], rest)
        | rest => (readMembers? fuel (depth - 1) rest).map fun (pairs, rest) =>
          (.obj (membersOf pairs), rest)
    | rest => (readNumber? rest).map fun (number, rest) => (.num number, rest)

/-- Reads the items of an array up to its end; there is at least one. -/
def readItems? : Nat → Nat → List Char → Option (List Json × List Char)
  | 0, _, _ => none
  | fuel + 1, depth, cs => do
    let (value, rest) ← readValue? fuel depth cs
    match skipBlanks rest with
    | ',' :: rest =>
      let (values, rest) ← readItems? fuel depth rest
      some (value :: values, rest)
    | ']' :: rest => some ([value], rest)
    | _ => none

/-- Reads the members of an object up to its end; there is at least one. -/
def readMembers? : Nat → Nat → List Char → Option (List (String × Json) × List Char)
  | 0, _, _ => none
  | fuel + 1, depth, cs =>
    match skipBlanks cs with
    | '"' :: rest => do
      let (name, rest) ← readText? rest
      match skipBlanks rest with
      | ':' :: rest =>
        let (value, rest) ← readValue? fuel depth rest
        match skipBlanks rest with
        | ',' :: rest =>
          let (members, rest) ← readMembers? fuel depth rest
          some ((name, value) :: members, rest)
        | '\x7d' :: rest => some ([(name, value)], rest)
        | _ => none
      | _ => none
    | _ => none

end

/-- Reads one JSON value and nothing else. -/
def read? (text : String) : Option Json :=
  let cs := text.toList
  match readValue? (2 * cs.length + 2) maxDepth cs with
  | some (value, rest) => if skipBlanks rest = [] then some value else none
  | none => none

end StoreQuery.Json
