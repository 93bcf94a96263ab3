import StoreQuery.Json.Read
import StoreQuery.Yaml.Cell

/-!
# Scalars

A scalar is written plain, between single or double quotes, or as a block of lines behind `|` or
`>`. Each reader takes the cells behind what opens the scalar, and gives the characters of the
scalar with the cells that follow.

**Folding.** Inside a plain or quoted scalar a single line break stands for a blank, and of
several the first is dropped; blanks around breaks do not count. Blanks without a break stay as
they are.
-/

namespace StoreQuery.Yaml

/-- How a scalar is written. -/
inductive Style where
  | plain
  | quoted
  | literal
  | folded
deriving DecidableEq

/-! ## Gaps -/

/-- White space inside a scalar: the blanks in front of the first break, and the breaks. -/
structure Gap where
  blanks : List Char := []
  breaks : List Char := []

/-- The white space that cells begin with, and the cells behind it. -/
def takeGap (cells : List Cell) : Gap × List Cell :=
  let white := cells.takeWhile Cell.isWhite
  (⟨(white.takeWhile Cell.isBlank).map Cell.char, (white.filter Cell.isBreak).map Cell.char⟩,
    cells.dropWhile Cell.isWhite)

/-- What a gap stands for. -/
def Gap.text (gap : Gap) : List Char :=
  match gap.breaks with
  | [] => gap.blanks
  | ['\n'] => [' ']
  | '\n' :: more => more
  | breaks => breaks

/-! ## Quoted scalars -/

/-- Reads up to the closing single quote; two of them stand for one. The first argument bounds the
number of steps, and `done` holds the characters so far, last first. -/
def readSingle? : Nat → List Char → List Cell → Option (List Char × List Cell)
  | 0, _, _ => none
  | _ + 1, _, [] => none
  | fuel + 1, done, cell :: rest =>
    if isDocumentMarker (cell :: rest) then none
    else if cell.isWhite then
      let (gap, rest) := takeGap (cell :: rest)
      readSingle? fuel (gap.text.reverse ++ done) rest
    else if cell.char = '\'' then
      if starts (· = '\'') rest then readSingle? fuel ('\'' :: done) rest.tail
      else some (done.reverse, rest)
    else readSingle? fuel (cell.char :: done) rest

/-- The character with a code of some hexadecimal digits, and what follows them. -/
def readCode? (count : Nat) (cells : List Cell) : Option (Char × List Cell) :=
  let digits := (cells.take count).filterMap fun cell => Json.hexValue? cell.char
  let code := digits.foldl (fun value digit => value * 16 + digit) 0
  if digits.length = count ∧ code.isValidChar then some (Char.ofNat code, cells.drop count)
  else none

/-- Reads what follows a backslash between double quotes. -/
def readEscape? : List Cell → Option (Char × List Cell)
  | [] => none
  | cell :: rest =>
    match cell.char with
    | '0' => some ('\x00', rest)
    | 'a' => some ('\x07', rest)
    | 'b' => some ('\x08', rest)
    | 't' | '\t' => some ('\t', rest)
    | 'n' => some ('\n', rest)
    | 'v' => some ('\x0b', rest)
    | 'f' => some ('\x0c', rest)
    | 'r' => some ('\r', rest)
    | 'e' => some ('\x1b', rest)
    | ' ' => some (' ', rest)
    | '"' => some ('"', rest)
    | '/' => some ('/', rest)
    | '\\' => some ('\\', rest)
    | 'N' => some ('\u0085', rest)
    | '_' => some ('\u00a0', rest)
    | 'L' => some ('\u2028', rest)
    | 'P' => some ('\u2029', rest)
    | 'x' => readCode? 2 rest
    | 'u' => readCode? 4 rest
    | 'U' => readCode? 8 rest
    | _ => none

/-- Reads up to the closing double quote. A backslash in front of a break takes it out, with the
blanks after it; the breaks that follow it stay. -/
def readDouble? : Nat → List Char → List Cell → Option (List Char × List Cell)
  | 0, _, _ => none
  | _ + 1, _, [] => none
  | fuel + 1, done, cell :: rest =>
    if isDocumentMarker (cell :: rest) then none
    else if cell.isWhite then
      let (gap, rest) := takeGap (cell :: rest)
      readDouble? fuel (gap.text.reverse ++ done) rest
    else if cell.char = '"' then some (done.reverse, rest)
    else if cell.char = '\\' then
      match rest with
      | [] => none
      | next :: _ =>
        if next.isBreak then
          let (gap, rest) := takeGap rest.tail
          readDouble? fuel (gap.breaks.reverse ++ done) rest
        else
          (readEscape? rest).bind fun (c, rest) => readDouble? fuel (c :: done) rest
    else readDouble? fuel (cell.char :: done) rest

/-! ## Plain scalars -/

/-- Whether a character has a meaning between brackets. -/
def isFlowMark (c : Char) : Bool :=
  c = ',' || c = '[' || c = ']' || c = '\x7b' || c = '\x7d'

/-- Reads a plain scalar up to white space or up to what ends it: a colon in front of white space,
or between brackets a character that has a meaning there. Between brackets a colon may not stand
right in front of such a character. -/
def takeWord? (flow : Bool) (done : List Char) : List Cell → Option (List Char × List Cell)
  | [] => some (done, [])
  | cell :: rest =>
    if cell.isWhite then some (done, cell :: rest)
    else if flow && cell.char = ':' && starts (fun c => isFlowMark c || c = '?') rest then none
    else if (cell.char = ':' && endsWord rest) || (flow && isFlowMark cell.char) then
      some (done, cell :: rest)
    else takeWord? flow (cell.char :: done) rest

/-- Whether a tab stands in the indentation of a line after the first. -/
def hasTabIndent (least : Nat) (cells : List Cell) : Bool :=
  ((cells.takeWhile Cell.isWhite).dropWhile Cell.isBlank).any fun cell =>
    cell.char = '\t' && cell.column < least

/-- Reads the words of a plain scalar, with `gap` in front of the first. Outside brackets, lines
after the first have to be indented at least so far. Gives whether the scalar was left over a
break. -/
def readWords? (flow : Bool) (least : Nat) :
    Nat → List Char → Gap → List Cell → Option (List Char × Bool × List Cell)
  | 0, _, _, _ => none
  | fuel + 1, done, gap, cells =>
    if isDocumentMarker cells || starts (· = '#') cells then
      some (done.reverse, !gap.breaks.isEmpty, cells)
    else do
      let (word, rest) ← takeWord? flow [] cells
      if word.isEmpty then some (done.reverse, !gap.breaks.isEmpty, rest)
      else
        let done := word ++ (gap.text.reverse ++ done)
        if hasTabIndent least rest then none
        else if rest.head?.all fun cell => !cell.isWhite then some (done.reverse, false, rest)
        else
          let (gap, rest) := takeGap rest
          if !flow && rest.head?.any fun cell => cell.column < least then
            some (done.reverse, !gap.breaks.isEmpty, rest)
          else readWords? flow least fuel done gap rest

/-- Reads a plain scalar. The first argument bounds the number of its words. -/
def readPlain? (fuel : Nat) (flow : Bool) (least : Nat) (cells : List Cell) :
    Option (List Char × Bool × List Cell) :=
  readWords? flow least fuel [] {} cells

/-! ## Blocks of lines -/

/-- What becomes of the breaks at the end of a block: none stays, one, or all. -/
inductive Chomping where
  | strip
  | clip
  | keep

/-- Reads the sign that tells what becomes of the last breaks. -/
def takeChomping : List Cell → Option Chomping × List Cell
  | [] => (none, [])
  | cell :: rest =>
    if cell.char = '+' then (some .keep, rest)
    else if cell.char = '-' then (some .strip, rest)
    else (none, cell :: rest)

/-- Reads the digit that tells how far a block is indented further, if there is one. -/
def takeIncrement? : List Cell → Option (Option Nat × List Cell)
  | [] => some (none, [])
  | cell :: rest =>
    if cell.char = '0' then none
    else if cell.char.isDigit then some (some (cell.char.toNat - 48), rest)
    else some (none, cell :: rest)

/-- Reads what follows the mark of a block on its line: a sign and a digit in any order. -/
def readHeader? (cells : List Cell) : Option (Chomping × Option Nat × List Cell) := do
  let (first, rest) := takeChomping cells
  let (increment, rest) ← takeIncrement? rest
  let (second, rest) := if first.isSome then (none, rest) else takeChomping rest
  some ((first.or second).getD .clip, increment, ← endLine? rest)

/-- Drops indentation and collects the breaks of the lines without anything else. Where the
indentation is not known yet, gives the widest. -/
def takeEmptyLines? (indent : Option Nat) (widest : Nat) (breaks : List Char) :
    List Cell → Option (Nat × List Char × List Cell)
  | [] => some (widest, breaks.reverse, [])
  | cell :: rest =>
    let inside := indent.all fun n => cell.column < n
    if inside && cell.char = ' ' then
      takeEmptyLines? indent (max widest (cell.column + 1)) breaks rest
    else if inside && cell.char = '\t' then none
    else if cell.isBreak then takeEmptyLines? indent widest (cell.char :: breaks) rest
    else some (widest, breaks.reverse, cell :: rest)

/-- The lines of a block so far, last first, with the break that ended the last line, the breaks of
the empty lines after it, and whether the last line began with a blank. -/
structure Lines where
  done : List Char := []
  lastBreak : List Char := []
  emptyLines : List Char := []
  blank : Bool := false

/-- What stands between the last line and the next. A folded block joins lines that begin without a
blank as other scalars do. -/
def Lines.between (lines : Lines) (folded blank : Bool) : List Char :=
  if folded && lines.lastBreak = ['\n'] && !lines.blank && !blank then
    if lines.emptyLines.isEmpty then [' '] else lines.emptyLines
  else lines.lastBreak ++ lines.emptyLines

/-- The characters of a block. -/
def Lines.chomp (lines : Lines) : Chomping → List Char
  | .strip => lines.done.reverse
  | .clip => lines.done.reverse ++ lines.lastBreak
  | .keep => lines.done.reverse ++ lines.lastBreak ++ lines.emptyLines

/-- Reads the lines of a block that stand at its indentation. -/
def readLines? (folded : Bool) (indent : Nat) :
    Nat → Lines → List Cell → Option (Lines × List Cell)
  | 0, _, _ => none
  | _ + 1, lines, [] => some (lines, [])
  | fuel + 1, lines, cell :: rest =>
    if cell.column ≠ indent then some (lines, cell :: rest)
    else do
      let line := (cell :: rest).takeWhile fun cell => !cell.isBreak
      let after := dropLine rest
      let (_, emptyLines, rest) ← takeEmptyLines? (some indent) 0 [] after.tail
      readLines? folded indent fuel
        { done := (line.map Cell.char).reverse
            ++ ((lines.between folded cell.isBlank).reverse ++ lines.done)
          lastBreak := (after.take 1).map Cell.char
          emptyLines := emptyLines
          blank := cell.isBlank } rest

/-- Reads a block of lines. `parent` is the indentation of the block around it, if there is one. The
first argument bounds the number of lines. -/
def readBlock? (fuel : Nat) (folded : Bool) (parent : Option Nat) (cells : List Cell) :
    Option (List Char × List Cell) := do
  let (chomping, increment, rest) ← readHeader? cells
  let given := increment.map fun n => parent.getD 0 + n
  let (widest, emptyLines, rest) ← takeEmptyLines? given 0 [] rest
  let least := (parent.map (· + 1)).getD 0
  let indent := given.getD (max widest (max least 1))
  let (lines, rest) ← readLines? folded indent fuel { emptyLines := emptyLines } rest
  some (lines.chomp chomping, rest)

end StoreQuery.Yaml
