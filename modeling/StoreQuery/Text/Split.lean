/-!
# Cutting and joining text

`split` cuts a text at every occurrence of one character and keeps every part, empty ones
included; `join` puts parts together again with a separator between them. `cutAt` cuts a text
once, at the first occurrence of a separator of any length. All of them work on the characters of
the text, so laws about lists apply.
-/

namespace StoreQuery.Text

/-- The parts of a list between the occurrences of `sep`; there is always at least one. -/
def splitChars (sep : Char) : List Char → List (List Char)
  | [] => [[]]
  | c :: cs =>
    if c = sep then [] :: splitChars sep cs
    else match splitChars sep cs with
      | [] => [[c]]
      | part :: parts => (c :: part) :: parts

/-- The parts of a text between the occurrences of `sep`. -/
def split (sep : Char) (text : String) : List String :=
  (splitChars sep text.toList).map String.ofList

/-- The parts one after the other, with `sep` between neighbours. -/
def join (sep : String) : List String → String
  | [] => ""
  | [part] => part
  | part :: parts => part ++ sep ++ join sep parts

/-- Whether `whole` begins with `start`. -/
def beginsWith (start whole : List Char) : Bool := start.isPrefixOf whole

/-- Whether `whole` contains `part` as consecutive characters. -/
def containsChars (part : List Char) : List Char → Bool
  | [] => beginsWith part []
  | c :: cs => beginsWith part (c :: cs) || containsChars part cs

/-- What stands before the first occurrence of `sep`, and what follows it. -/
def cutCharsAt (sep : List Char) : List Char → Option (List Char × List Char)
  | [] => if beginsWith sep [] then some ([], []) else none
  | c :: cs =>
    if beginsWith sep (c :: cs) then some ([], (c :: cs).drop sep.length)
    else (cutCharsAt sep cs).map fun (before, after) => (c :: before, after)

/-- Cuts a text at the first occurrence of a separator. -/
def cutAt (sep text : String) : Option (String × String) :=
  (cutCharsAt sep.toList text.toList).map fun (before, after) =>
    (String.ofList before, String.ofList after)

/-! ## Blanks -/

/-- The characters with the property `White_Space`. -/
def isBlank (c : Char) : Bool :=
  let n := c.toNat
  (9 ≤ n && n ≤ 13) || n == 0x20 || n == 0x85 || n == 0xA0 || n == 0x1680
    || (0x2000 ≤ n && n ≤ 0x200A) || n == 0x2028 || n == 0x2029 || n == 0x202F
    || n == 0x205F || n == 0x3000

/-- A list without the blanks at its two ends. -/
def trimChars (cs : List Char) : List Char :=
  ((cs.dropWhile isBlank).reverse.dropWhile isBlank).reverse

/-- A text without the blanks at its two ends. -/
def trim (text : String) : String := String.ofList (trimChars text.toList)

/-! ## ASCII case -/

/-- Raises the letters `a` to `z` and leaves every other character alone. -/
def upperAscii (text : String) : String := String.ofList (text.toList.map Char.toUpper)

end StoreQuery.Text
