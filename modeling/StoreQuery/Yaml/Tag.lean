import StoreQuery.Json.Read
import StoreQuery.Yaml.Cell

/-!
# Names, tags and directives

A node may be given a name behind `&`, by which `*` refers to it, and a tag behind `!`. A tag is
written in full between `!<` and `>`, or as a handle and a suffix; a directive in front of a
document says what its handles stand for. The suffix `!` without a handle is the tag of a node
that is taken as it is written.

Octets may be written behind a percent sign in a tag. They must look like UTF-8, but need not be:
a tag whose octets are no text is kept as such.
-/

namespace StoreQuery.Yaml

/-- A tag by its text, if its octets are one. -/
structure Tag where
  text? : Option String
deriving DecidableEq

/-- A tag that two tags make one behind the other. -/
def Tag.append (front back : Tag) : Tag :=
  ⟨front.text?.bind fun a => back.text?.map fun b => a ++ b⟩

/-- Whether a character may occur in a name. -/
def isNameChar (c : Char) : Bool := c.isAlphanum || c = '_' || c = '-'

/-- A name, and what follows it. -/
def takeName (cells : List Cell) : List Char × List Cell :=
  ((cells.takeWhile fun cell => isNameChar cell.char).map Cell.char,
    cells.dropWhile fun cell => isNameChar cell.char)

/-- Reads the name of a node, which some marks may follow. -/
def readName? (cells : List Cell) : Option (String × List Cell) :=
  let (name, rest) := takeName cells
  if name.isEmpty then none
  else if endsWord rest || starts (fun c => "?:,]\x7d%@\x60".toList.contains c) rest then
    some (String.ofList name, rest)
  else none

/-! ## Tags -/

/-- Whether a character may stand for itself in a tag; between angle brackets there are more. -/
def isTagChar (verbatim : Bool) (c : Char) : Bool :=
  isNameChar c || ";/?:@&=+$.!~*'()".toList.contains c || (verbatim && ",[]".toList.contains c)

/-- Reads an octet behind a percent sign. -/
def readOctet? : List Cell → Option (Nat × List Cell)
  | mark :: high :: low :: rest =>
    if mark.char = '%' then do
      let high ← Json.hexValue? high.char
      let low ← Json.hexValue? low.char
      some (high * 16 + low, rest)
    else none
  | _ => none

/-- How many octets follow the first octet of a character. -/
def followers? (octet : Nat) : Option Nat :=
  if octet < 0x80 then some 0
  else if 0xC0 ≤ octet ∧ octet < 0xE0 then some 1
  else if 0xE0 ≤ octet ∧ octet < 0xF0 then some 2
  else if 0xF0 ≤ octet ∧ octet < 0xF8 then some 3
  else none

/-- Reads a number of octets that are not the first of a character. -/
def readFollowers? : Nat → List Cell → Option (List Nat × List Cell)
  | 0, cells => some ([], cells)
  | count + 1, cells => do
    let (octet, rest) ← readOctet? cells
    if octet < 0x80 ∨ 0xC0 ≤ octet then none
    else
      let (octets, rest) ← readFollowers? count rest
      some (octet :: octets, rest)

/-- Reads the octets of one character behind percent signs. -/
def readOctets? (cells : List Cell) : Option (List Nat × List Cell) := do
  let (first, rest) ← readOctet? cells
  let (octets, rest) ← readFollowers? (← followers? first) rest
  some (first :: octets, rest)

/-- Reads the octets of a tag. The first argument bounds the number of steps, and `done` holds the
octets so far, last first. -/
def readTagOctets? (verbatim : Bool) : Nat → List Nat → List Cell → Option (List Nat × List Cell)
  | 0, _, _ => none
  | _ + 1, done, [] => some (done.reverse, [])
  | fuel + 1, done, cell :: rest =>
    if cell.char = '%' then
      (readOctets? (cell :: rest)).bind fun (octets, rest) =>
        readTagOctets? verbatim fuel (octets.reverse ++ done) rest
    else if isTagChar verbatim cell.char then
      readTagOctets? verbatim fuel (cell.char.toNat :: done) rest
    else some (done.reverse, cell :: rest)

/-- The tag with some octets. -/
def Tag.ofOctets (octets : List Nat) : Tag :=
  ⟨String.fromUTF8? ⟨(octets.map fun n => UInt8.ofNat n).toArray⟩⟩

/-- Reads a tag or a part of one behind some characters of it; it must not be empty. The first
argument bounds the number of its characters. -/
def readTagText? (fuel : Nat) (verbatim : Bool) (front : List Char) (cells : List Cell) :
    Option (Tag × List Cell) := do
  let (octets, rest) ← readTagOctets? verbatim fuel [] cells
  if front.isEmpty && octets.isEmpty then none
  else some (Tag.ofOctets (front.tail.map Char.toNat ++ octets), rest)

/-- Reads a handle as far as it goes: an exclamation mark, a name, and a second mark. -/
def readHandle? : List Cell → Option (List Char × List Cell)
  | [] => none
  | cell :: rest =>
    if cell.char = '!' then
      let (name, rest) := takeName rest
      if starts (· = '!') rest then some ('!' :: name ++ ['!'], rest.tail)
      else some ('!' :: name, rest)
    else none

/-- Whether a tag may end in front of some cells. -/
def endsTag (flow : Bool) (cells : List Cell) : Bool :=
  endsWord cells || (flow && starts (· = ',') cells)

/-- Reads a tag as a handle and a suffix. A tag without a handle has an empty one. -/
def readTag? (fuel : Nat) (flow : Bool) (cells : List Cell) :
    Option (String × Tag × List Cell) := do
  let (handle, tag, rest) ←
    if starts (· = '<') cells.tail then do
      let (tag, rest) ← readTagText? fuel true [] (cells.drop 2)
      if starts (· = '>') rest then some ("", tag, rest.tail) else none
    else do
      let (handle, rest) ← readHandle? cells
      if 1 < handle.length ∧ handle.getLast? = some '!' then do
        let (tag, rest) ← readTagText? fuel false [] rest
        some (String.ofList handle, tag, rest)
      else do
        let (tag, rest) ← readTagText? fuel false handle rest
        if tag.text? = some "" then some ("", ⟨some "!"⟩, rest) else some ("!", tag, rest)
  if endsTag flow rest then some (handle, tag, rest) else none

/-! ## Directives -/

/-- What a line in front of a document says. -/
inductive Directive where
  /-- The version of the language. -/
  | version (major minor : Nat)
  /-- What a handle stands for. -/
  | handle (name : String) (tag : Tag)
deriving DecidableEq

/-- Reads a number of at most nine digits. -/
def readVersionPart? (cells : List Cell) : Option (Nat × List Cell) :=
  let digits := cells.takeWhile fun cell => cell.char.isDigit
  if digits.isEmpty ∨ 9 < digits.length then none
  else some (digits.foldl (fun value cell => value * 10 + (cell.char.toNat - 48)) 0,
    cells.dropWhile fun cell => cell.char.isDigit)

/-- Reads a version, which is all of a line. -/
def readVersion? (cells : List Cell) : Option (Directive × List Cell) := do
  let (major, rest) ← readVersionPart? (cells.dropWhile Cell.isBlank)
  if starts (· = '.') rest then
    let (minor, rest) ← readVersionPart? rest.tail
    some (.version major minor, ← endLine? rest)
  else none

/-- Reads what a handle stands for, which is all of a line. -/
def readHandleTag? (fuel : Nat) (cells : List Cell) : Option (Directive × List Cell) := do
  let (handle, rest) ← readHandle? (cells.dropWhile Cell.isBlank)
  if handle.getLast? = some '!' ∧ rest.head?.any Cell.isBlank then
    let (tag, rest) ← readTagText? fuel true [] (rest.dropWhile Cell.isBlank)
    if endsWord rest then some (.handle (String.ofList handle) tag, ← endLine? rest) else none
  else none

/-- Reads a directive behind its percent sign. The first argument bounds the number of its
characters. -/
def readDirective? (fuel : Nat) (cells : List Cell) : Option (Directive × List Cell) :=
  let (name, rest) := takeName cells
  if !endsWord rest then none
  else if String.ofList name = "YAML" then readVersion? rest
  else if String.ofList name = "TAG" then readHandleTag? fuel rest
  else none

end StoreQuery.Yaml
