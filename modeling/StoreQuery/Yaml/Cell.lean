/-!
# Characters in their places

In YAML it matters where a character stands: indentation opens and closes blocks, and a key has to
share its line with the colon after it. `cells?` lays a text out as cells, each a character with
its line and its column, and refuses the characters that YAML does not allow anywhere.

**Line breaks.** A carriage return, a line feed, the two together and a next-line character are
one break, kept as a line feed. The line and paragraph separators are breaks that stay as they
are.
-/

namespace StoreQuery.Yaml

/-- A character in its place. A break belongs to the line that it ends. -/
structure Cell where
  char : Char
  line : Nat
  column : Nat

/-- Whether a character may occur: no control characters but tabs and breaks, and no
noncharacters at the end of the first plane. -/
def isAllowed (c : Char) : Bool :=
  c = '\t' || c = '\n' || c = '\r' || c = '\u0085' || (' ' ≤ c && c ≤ '~')
    || ('\u00a0' ≤ c && c ≠ '\ufffe' && c ≠ '\uffff')

/-- Lays characters out from a place on. `done` holds the cells before it, last first. -/
def layOut (done : List Cell) (line column : Nat) : List Char → List Cell
  | [] => done.reverse
  | '\r' :: '\n' :: cs => layOut (⟨'\n', line, column⟩ :: done) (line + 1) 0 cs
  | c :: cs =>
    if c = '\n' ∨ c = '\r' ∨ c = '\u0085' then
      layOut (⟨'\n', line, column⟩ :: done) (line + 1) 0 cs
    else if c = '\u2028' ∨ c = '\u2029' then
      layOut (⟨c, line, column⟩ :: done) (line + 1) 0 cs
    else layOut (⟨c, line, column⟩ :: done) line (column + 1) cs

/-- The cells of a text. -/
def cells? (text : String) : Option (List Cell) :=
  let cs := text.toList
  if cs.all isAllowed then some (layOut [] 0 0 cs) else none

/-! ## White space -/

namespace Cell

def isBlank (cell : Cell) : Bool := cell.char = ' ' || cell.char = '\t'

def isBreak (cell : Cell) : Bool :=
  cell.char = '\n' || cell.char = '\u2028' || cell.char = '\u2029'

def isWhite (cell : Cell) : Bool := cell.isBlank || cell.isBreak

end Cell

/-- Whether the first character satisfies a condition; there must be one. -/
def starts (p : Char → Bool) : List Cell → Bool
  | [] => false
  | cell :: _ => p cell.char

/-- Whether nothing follows, or white space. -/
def endsWord : List Cell → Bool
  | [] => true
  | cell :: _ => cell.isWhite

/-- Whether a line begins with three of a character and nothing right after them. -/
def isMarker (mark : Char) : List Cell → Bool
  | a :: b :: c :: rest =>
    a.column = 0 && a.char = mark && b.char = mark && c.char = mark && endsWord rest
  | _ => false

/-- Whether a line begins with the mark of a document's begin or end. -/
def isDocumentMarker (cells : List Cell) : Bool := isMarker '-' cells || isMarker '.' cells

/-- What is left of a line that ends in front of a break. -/
def dropLine (cells : List Cell) : List Cell := cells.dropWhile fun cell => !cell.isBreak

/-- Drops blanks, a comment and the break, which must be all that is left of a line. -/
def endLine? (cells : List Cell) : Option (List Cell) :=
  let rest := cells.dropWhile Cell.isBlank
  match if starts (· = '#') rest then dropLine rest else rest with
  | [] => some []
  | cell :: rest => if cell.isBreak then some rest else none

/-- Drops what may stand between tokens: blanks, comments and breaks. Between brackets tabs are
blanks as well; elsewhere not where a key may begin, which is so after every break. Gives whether a
key may begin behind it. A byte order mark may stand at the begin of a line. -/
def skipBetween (flow keyAllowed comment : Bool) : List Cell → Bool × List Cell
  | [] => (keyAllowed, [])
  | cell :: rest =>
    if cell.isBreak then skipBetween flow (keyAllowed || !flow) false rest
    else if comment || cell.char = '#' then skipBetween flow keyAllowed true rest
    else if cell.char = ' ' || (cell.char = '\t' && (flow || !keyAllowed))
        || (cell.char = '\ufeff' && cell.column = 0) then
      skipBetween flow keyAllowed false rest
    else (keyAllowed, cell :: rest)

end StoreQuery.Yaml
