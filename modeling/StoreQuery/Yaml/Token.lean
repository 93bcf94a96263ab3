import StoreQuery.Yaml.Scalar
import StoreQuery.Yaml.Tag

/-!
# Tokens

`Token.ofText?` reads a text as tokens, in which blocks have a begin and an end as brackets do, and
keys are marked.

**Blocks.** A block collection begins where an item or a key stands further to the right than the
collection around it, and ends in front of the first token that stands further to the left.
Between brackets nothing counts as a block.

**Keys.** A key without a mark is known only by the colon behind it. So where a key may begin,
the place is remembered (`Candidate`), and the colon puts the mark there. Such a key ends on the
line where it begins, at most 1024 characters further. A token at the very indentation of its block
has to be a key, and it is a fault if no colon comes.
-/

namespace StoreQuery.Yaml

/-- A token. -/
inductive Token where
  | directive (content : Directive)
  | documentStart
  | documentEnd
  | blockSequence
  | blockMapping
  | blockEnd
  | flowSequence
  | flowSequenceEnd
  | flowMapping
  | flowMappingEnd
  | item
  | comma
  | key
  | value
  /-- A node that stands for the node with a name. -/
  | reference (name : String)
  /-- The name of the node that follows. -/
  | name (text : String)
  /-- The tag of the node that follows. -/
  | tag (handle : String) (suffix : Tag)
  | scalar (style : Style) (text : String)
deriving DecidableEq

/-- A place where a key may have begun. -/
structure Candidate where
  /-- Whether it has to be a key. -/
  needed : Bool
  /-- How many tokens stand before it. -/
  before : Nat
  line : Nat
  column : Nat

/-- How far behind the begin of a key its colon may stand. -/
def keyReach : Nat := 1024

/-- Whether a key that began here can end in front of a cell. -/
def Candidate.reaches (candidate : Candidate) (cell : Cell) : Bool :=
  candidate.line = cell.line && cell.column ≤ candidate.column + keyReach

/-- How far a text has been read. -/
structure Progress where
  /-- A bound on the number of cells. -/
  bound : Nat
  rest : List Cell
  /-- The tokens so far, last first. -/
  tokens : List Token := []
  count : Nat := 0
  /-- The columns of the open block collections, innermost first. -/
  indents : List Nat := []
  /-- Where a key may have begun in the innermost collection. -/
  candidate : Option Candidate := none
  /-- The same for the collections around the innermost bracket, innermost first. -/
  outer : List (Option Candidate) := []
  /-- Whether a key may begin here. -/
  keyAllowed : Bool := true

namespace Progress

/-- Whether brackets are open. -/
def inFlow (p : Progress) : Bool := !p.outer.isEmpty

/-- The least column that the lines of a scalar may have. -/
def least (p : Progress) : Nat := (p.indents.head?.map (· + 1)).getD 0

def push (p : Progress) (token : Token) : Progress :=
  { p with tokens := token :: p.tokens, count := p.count + 1 }

/-- Puts tokens in front of those from a place on. -/
def insert (p : Progress) (before : Nat) (new : List Token) : Progress :=
  let after := p.count - before
  { p with
    tokens := p.tokens.take after ++ new.reverse ++ p.tokens.drop after
    count := p.count + new.length }

/-! ## Blocks -/

/-- Ends the block collections that stand further to the right than a column. -/
def closeBlocks (column : Nat) (p : Progress) : Progress :=
  if p.inFlow then p
  else
    let closed := p.indents.takeWhile fun indent => column < indent
    { p with
      indents := p.indents.drop closed.length
      tokens := List.replicate closed.length .blockEnd ++ p.tokens
      count := p.count + closed.length }

/-- Ends all block collections. -/
def closeAll (p : Progress) : Progress :=
  if p.inFlow then p
  else
    { p with
      indents := []
      tokens := List.replicate p.indents.length .blockEnd ++ p.tokens
      count := p.count + p.indents.length }

/-- Whether a block collection begins at a column. -/
def opensAt (p : Progress) (column : Nat) : Bool :=
  !p.inFlow && p.indents.head?.all fun indent => indent < column

/-- Begins a block collection, if the column calls for one. -/
def openBlock (column : Nat) (token : Token) (p : Progress) : Progress :=
  if p.opensAt column then { p.push token with indents := column :: p.indents } else p

/-! ## Keys -/

/-- Gives up the place where a key may have begun. -/
def dropCandidate? (p : Progress) : Option Progress :=
  if p.candidate.any (·.needed) then none else some { p with candidate := none }

/-- Remembers that a key may begin at a cell, if one may. -/
def noteCandidate? (cell : Cell) (p : Progress) : Option Progress :=
  if p.keyAllowed then do
    let needed := !p.inFlow && p.indents.head? = some cell.column
    let p ← p.dropCandidate?
    some { p with candidate := some ⟨needed, p.count, cell.line, cell.column⟩ }
  else some p

/-- Keeps the places from where a key can still end in front of a cell. -/
def dropStale? (cell : Cell) (p : Progress) : Option Progress :=
  if (p.candidate :: p.outer).any fun c => c.any fun c => c.needed && !c.reaches cell then none
  else
    let fresh (c : Option Candidate) := c.filter (·.reaches cell)
    some { p with candidate := fresh p.candidate, outer := p.outer.map fresh }

/-! ## Kinds of tokens -/

/-- A token of one character, behind which keys may begin or not. -/
def mark (token : Token) (keyAllowed : Bool) (p : Progress) : Progress :=
  { p.push token with rest := p.rest.tail, keyAllowed := keyAllowed }

/-- Reads the mark of a document's begin or end. -/
def readMarker? (token : Token) (p : Progress) : Option Progress := do
  let p ← p.closeAll.dropCandidate?
  some { p.push token with rest := p.rest.drop 3, keyAllowed := false }

/-- Reads a directive. -/
def readDirective? (p : Progress) : Option Progress := do
  let p ← p.closeAll.dropCandidate?
  let (directive, rest) ← Yaml.readDirective? p.bound p.rest.tail
  some { p.push (.directive directive) with rest := rest, keyAllowed := false }

/-- Reads an opening bracket. -/
def openFlow? (cell : Cell) (token : Token) (p : Progress) : Option Progress := do
  let p ← p.noteCandidate? cell
  some ({ p with candidate := none, outer := p.candidate :: p.outer }.mark token true)

/-- Reads a closing bracket. -/
def closeFlow? (token : Token) (p : Progress) : Option Progress := do
  let p ← p.dropCandidate?
  let p := match p.outer with
    | [] => p
    | candidate :: outer => { p with candidate := candidate, outer := outer }
  some (p.mark token false)

/-- Reads a comma. -/
def readComma? (p : Progress) : Option Progress :=
  p.dropCandidate?.map (·.mark .comma true)

/-- Reads the mark of an item. -/
def readItem? (cell : Cell) (p : Progress) : Option Progress :=
  if !p.inFlow && !p.keyAllowed then none
  else (p.openBlock cell.column .blockSequence).dropCandidate?.map (·.mark .item true)

/-- Reads the mark of a key. -/
def readKey? (cell : Cell) (p : Progress) : Option Progress :=
  if !p.inFlow && !p.keyAllowed then none
  else (p.openBlock cell.column .blockMapping).dropCandidate?.map (·.mark .key (!p.inFlow))

/-- Reads the colon in front of a value. -/
def readValue? (cell : Cell) (p : Progress) : Option Progress :=
  match p.candidate with
  | some candidate =>
    let opens := p.opensAt candidate.column
    let p := p.insert candidate.before (if opens then [.blockMapping, .key] else [.key])
    let indents := if opens then candidate.column :: p.indents else p.indents
    some ({ p with indents := indents, candidate := none }.mark .value false)
  | none =>
    if !p.inFlow && !p.keyAllowed then none
    else some ((p.openBlock cell.column .blockMapping).mark .value (!p.inFlow))

/-- A token that may be a key or stand in front of one, and the cells behind it. -/
def readNode? (cell : Cell) (p : Progress) (token : Token) (rest : List Cell) :
    Option Progress := do
  let p ← p.noteCandidate? cell
  some { p.push token with rest := rest, keyAllowed := false }

/-- Reads a scalar in quotes. -/
def readQuoted? (cell : Cell) (p : Progress)
    (read? : Nat → List Char → List Cell → Option (List Char × List Cell)) : Option Progress := do
  let (text, rest) ← read? p.bound [] p.rest.tail
  p.readNode? cell (.scalar .quoted (String.ofList text)) rest

/-- Reads a plain scalar. A key may begin after the break behind it. -/
def readPlain? (cell : Cell) (p : Progress) : Option Progress := do
  let (text, broken, rest) ← Yaml.readPlain? p.bound p.inFlow p.least p.rest
  let p ← p.readNode? cell (.scalar .plain (String.ofList text)) rest
  some { p with keyAllowed := broken }

/-- Reads a block of lines. -/
def readBlock? (folded : Bool) (p : Progress) : Option Progress := do
  let p ← p.dropCandidate?
  let (text, rest) ← Yaml.readBlock? p.bound folded p.indents.head? p.rest.tail
  let style := if folded then .folded else .literal
  some { p.push (.scalar style (String.ofList text)) with rest := rest, keyAllowed := true }

/-! ## The text -/

/-- The characters with which no plain scalar begins. -/
def indicators : List Char := "-?:,[]\x7b\x7d#&*!|>'\"%@\x60".toList

/-- Whether a plain scalar begins with a character in front of some cells. -/
def beginsPlain (flow : Bool) (cell : Cell) (rest : List Cell) : Bool :=
  if cell.char = '-' then true
  else if cell.char = '?' ∨ cell.char = ':' then !flow && !endsWord rest
  else !cell.isWhite && !indicators.contains cell.char

/-- Reads the token that begins with a cell. -/
def readToken? (cell : Cell) (rest : List Cell) (p : Progress) : Option Progress :=
  let marks := p.inFlow || endsWord rest
  if cell.column = 0 ∧ cell.char = '%' then p.readDirective?
  else if isMarker '-' p.rest then p.readMarker? .documentStart
  else if isMarker '.' p.rest then p.readMarker? .documentEnd
  else if cell.char = '[' then p.openFlow? cell .flowSequence
  else if cell.char = '\x7b' then p.openFlow? cell .flowMapping
  else if cell.char = ']' then p.closeFlow? .flowSequenceEnd
  else if cell.char = '\x7d' then p.closeFlow? .flowMappingEnd
  else if cell.char = ',' then p.readComma?
  else if cell.char = '-' ∧ endsWord rest then p.readItem? cell
  else if cell.char = '?' ∧ marks then p.readKey? cell
  else if cell.char = ':' ∧ marks then p.readValue? cell
  else if cell.char = '*' then
    (readName? rest).bind fun (name, rest) => p.readNode? cell (.reference name) rest
  else if cell.char = '&' then
    (readName? rest).bind fun (name, rest) => p.readNode? cell (.name name) rest
  else if cell.char = '!' then
    (readTag? p.bound p.inFlow p.rest).bind fun (handle, tag, rest) =>
      p.readNode? cell (.tag handle tag) rest
  else if cell.char = '|' ∧ !p.inFlow then p.readBlock? false
  else if cell.char = '>' ∧ !p.inFlow then p.readBlock? true
  else if cell.char = '\'' then p.readQuoted? cell readSingle?
  else if cell.char = '"' then p.readQuoted? cell readDouble?
  else if beginsPlain p.inFlow cell rest then p.readPlain? cell
  else none

/-- Reads the tokens up to the end. The first argument bounds their number. -/
def finish? : Nat → Progress → Option (List Token)
  | 0, _ => none
  | fuel + 1, p =>
    let (keyAllowed, rest) := skipBetween p.inFlow p.keyAllowed false p.rest
    let p := { p with rest := rest, keyAllowed := keyAllowed }
    match rest with
    | [] => p.closeAll.dropCandidate?.map (·.tokens.reverse)
    | cell :: rest => do
      let p ← p.dropStale? cell
      finish? fuel (← (p.closeBlocks cell.column).readToken? cell rest)

end Progress

/-- The tokens of a text. -/
def Token.ofText? (text : String) : Option (List Token) :=
  (cells? text).bind fun cells =>
    let bound := cells.length + 1
    Progress.finish? bound { bound := bound, rest := cells }

end StoreQuery.Yaml
