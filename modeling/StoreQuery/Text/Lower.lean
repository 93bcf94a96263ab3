import StoreQuery.Text.CaseTable

/-!
# Lower case

`lower` replaces every capital letter by its small letter. Two letters need more than a table
look-up: `İ` becomes two characters, and a capital sigma becomes the final sigma `ς` where a word
ends, that is when a cased character stands before it and none after it, characters such as
accents and apostrophes being passed over in both directions. So the small letters of a text are
not always the small letters of its parts put together.
-/

namespace StoreQuery.Text

private def inRanges (ranges : List (Nat × Nat)) (c : Char) : Bool :=
  ranges.any fun (first, last) => first ≤ c.toNat && c.toNat ≤ last

/-- Whether a character has case, such as a letter with a capital and a small form. -/
def isCased (c : Char) : Bool := inRanges casedRanges c

/-- Whether a character is passed over when the neighbours of a letter are looked for. -/
def isCaseIgnorable (c : Char) : Bool := inRanges ignorableRanges c

/-- The small letter of one character. -/
def lowerSimple (c : Char) : Char :=
  if c.toNat < 0x80 then c.toLower
  else
    match lowerRuns.find? fun run => run.first ≤ c.toNat && c.toNat ≤ run.last with
    | some run =>
      if (c.toNat - run.first) % run.stride = 0 then
        Char.ofNat (run.target + (c.toNat - run.first))
      else c
    | none => c

/-- Whether the nearest character that is not passed over has case. -/
def nextIsCased (cs : List Char) : Bool :=
  match cs.dropWhile isCaseIgnorable with
  | [] => false
  | c :: _ => isCased c

/-- Lower case of the characters in `cs`, where `before` holds those in front of them, nearest
first. -/
def lowerChars (before : List Char) : List Char → List Char
  | [] => []
  | c :: cs =>
    let small :=
      if c = 'Σ' then
        if nextIsCased before && !nextIsCased cs then ['ς'] else ['σ']
      else if c = 'İ' then ['i', '\u0307']
      else [lowerSimple c]
    small ++ lowerChars (c :: before) cs

/-- Lower case of a text. -/
def lower (text : String) : String := String.ofList (lowerChars [] text.toList)

end StoreQuery.Text
