import StoreQuery.Yaml.Token

/-!
# Documents

`Document.ofText?` reads a text that holds one document or nothing. A node is a scalar, a sequence,
a mapping, or a reference to a node with a name; a document keeps the nodes with names, so that a
reference can be followed, also one from inside the node that it refers to.

A node that is left out is an empty plain scalar. JSON is a part of YAML.
-/

namespace StoreQuery.Yaml

/-- A node. References go by the number of a name. -/
inductive Node where
  | scalar (style : Style) (tag : Option Tag) (text : String)
  | sequence (tag : Option Tag) (items : List Node)
  | mapping (tag : Option Tag) (entries : List (Node × Node))
  | reference (number : Nat)

/-- The node of nothing. -/
def Node.nothing : Node := .scalar .plain none ""

/-- A node with a name. -/
structure Named where
  /-- The number of the name. -/
  number : Nat
  /-- How many nodes with names begin before it. -/
  before : Nat
  node : Node

/-- A document: its root and the nodes with names. -/
structure Document where
  root : Node
  named : List Named := []

/-- Follows a reference. Of several nodes with a number, the one that begins last counts. -/
def Document.resolve (document : Document) : Node → Node
  | .reference number =>
    let later (best : Option Named) (next : Named) : Option Named :=
      if next.number ≠ number ∨ best.any fun b => next.before < b.before then best else some next
    ((document.named.foldl later none).map Named.node).getD .nothing
  | node => node

/-! ## Reading nodes -/

/-- What is left of the tokens, and the names so far. -/
structure Draft where
  tokens : List Token
  /-- What the handles of tags stand for. -/
  handles : List (String × Tag)
  /-- The numbers of the names. -/
  numbers : List (String × Nat) := []
  /-- How many nodes with names have begun. -/
  begun : Nat := 0
  named : List Named := []

/-- Reads from a draft. -/
abbrev Reading := StateT Draft Option

namespace Reading

/-- The next token. -/
def peek : Reading (Option Token) := do return (← get).tokens.head?

/-- Drops the next token. -/
def drop : Reading Unit := modify fun draft => { draft with tokens := draft.tokens.tail }

/-- Drops the next token if it is a given one, and gives whether it is. -/
def skip (token : Token) : Reading Bool := do
  if (← peek) = some token then
    drop
    return true
  else return false

/-- Whether the next token is one of some. -/
def isNext (tokens : List Token) : Reading Bool := do return (← peek).any tokens.contains

/-- The number of a name that a node has had. -/
def numberOf (name : String) : Reading Nat := do (← get).numbers.lookup name

/-- The tag that a handle and a suffix make. -/
def resolveTag (handle : String) (suffix : Tag) : Reading Tag := do
  if handle = "" then return suffix
  else return ((← (← get).handles.lookup handle).append suffix)

/-- The name and the tag in front of a node, in any order. -/
def readProperties : Reading (Option String × Option Tag) := do
  match ← peek with
  | some (.name name) =>
    drop
    match ← peek with
    | some (.tag handle suffix) =>
      drop
      return (some name, some (← resolveTag handle suffix))
    | _ => return (some name, none)
  | some (.tag handle suffix) =>
    drop
    match ← peek with
    | some (.name name) =>
      drop
      return (some name, some (← resolveTag handle suffix))
    | _ => return (none, some (← resolveTag handle suffix))
  | _ => return (none, none)

/-- Gives a name to the node that begins here. The number of a name is how many names there have
been. -/
def beginNamed (name : String) : Reading (Nat × Nat) := do
  let draft ← get
  let number := draft.numbers.length
  let others := draft.numbers.filter fun entry => entry.1 ≠ name
  set { draft with numbers := (name, number) :: others, begun := draft.begun + 1 }
  return (number, draft.begun)

/-- Keeps a node with its number, and how many nodes with names begin before it. -/
def keepNamed (node : Node) : Option (Nat × Nat) → Reading Unit
  | none => pure ()
  | some (number, before) =>
    modify fun draft => { draft with named := ⟨number, before, node⟩ :: draft.named }

/-- A node of which there is only a name or a tag. -/
def leftOut (spare : Bool) (tag : Option Tag) : Reading Node :=
  if spare then pure (.scalar .plain tag "") else failure

mutual

/-- Reads a node. Block collections may be ruled out, and a block sequence that is indented no
further than its key may be called for. The first argument bounds the number of steps. -/
def node (fuel : Nat) (block indentless : Bool) : Reading Node :=
  match fuel with
  | 0 => failure
  | fuel + 1 => do
    match ← peek with
    | some (.reference name) =>
      drop
      return .reference (← numberOf name)
    | _ =>
      let (name, tag) ← readProperties
      let number ← name.mapM beginNamed
      let node ← content fuel block indentless (name.isSome || tag.isSome) tag
      keepNamed node number
      return node

/-- Reads a node behind its name and its tag. With one of them, it may be left out. -/
def content (fuel : Nat) (block indentless spare : Bool) (tag : Option Tag) : Reading Node :=
  match fuel with
  | 0 => failure
  | fuel + 1 => do
    match ← peek with
    | some (.scalar style text) =>
      drop
      return .scalar style (tag.filter (· ≠ ⟨some "!"⟩)) text
    | some .flowSequence =>
      drop
      return .sequence tag (← flowItems fuel true)
    | some .flowMapping =>
      drop
      return .mapping tag (← flowEntries fuel true)
    | some .item =>
      if indentless then return .sequence tag (← indentlessItems fuel)
      else leftOut spare tag
    | some .blockSequence =>
      if block then
        drop
        return .sequence tag (← blockItems fuel)
      else leftOut spare tag
    | some .blockMapping =>
      if block then
        drop
        return .mapping tag (← blockEntries fuel)
      else leftOut spare tag
    | _ => leftOut spare tag

/-- Reads a node that is left out in front of some tokens. -/
def nodeUnless (fuel : Nat) (block indentless : Bool) (ends : List Token) : Reading Node :=
  match fuel with
  | 0 => failure
  | fuel + 1 => do
    if ← isNext ends then return .nothing else node fuel block indentless

/-- Reads the items of a block sequence up to its end. -/
def blockItems (fuel : Nat) : Reading (List Node) :=
  match fuel with
  | 0 => failure
  | fuel + 1 => do
    if ← skip .blockEnd then return []
    else if ← skip .item then
      let first ← nodeUnless fuel true false [.item, .blockEnd]
      return first :: (← blockItems fuel)
    else failure

/-- Reads the items of a block sequence that is indented no further than its key. -/
def indentlessItems (fuel : Nat) : Reading (List Node) :=
  match fuel with
  | 0 => failure
  | fuel + 1 => do
    if ← skip .item then
      let first ← nodeUnless fuel true false [.item, .key, .value, .blockEnd]
      return first :: (← indentlessItems fuel)
    else return []

/-- Reads the entries of a block mapping up to its end. -/
def blockEntries (fuel : Nat) : Reading (List (Node × Node)) :=
  match fuel with
  | 0 => failure
  | fuel + 1 => do
    if ← skip .blockEnd then return []
    else if ← skip .key then
      let key ← nodeUnless fuel true true [.key, .value, .blockEnd]
      let value ← valueUnless fuel true [.key, .value, .blockEnd]
      return (key, value) :: (← blockEntries fuel)
    else failure

/-- Reads the value of an entry, which is left out without its mark or in front of some tokens. -/
def valueUnless (fuel : Nat) (block : Bool) (ends : List Token) : Reading Node :=
  match fuel with
  | 0 => failure
  | fuel + 1 => do
    if ← skip .value then nodeUnless fuel block block ends else return .nothing

/-- Reads the items of a flow sequence up to its end. An item may be a mapping of one entry. -/
def flowItems (fuel : Nat) (first : Bool) : Reading (List Node) :=
  match fuel with
  | 0 => failure
  | fuel + 1 => do
    if ← skip .flowSequenceEnd then return []
    else
      if !first then
        if !(← skip .comma) then failure
      if ← skip .flowSequenceEnd then return []
      else if ← skip .key then
        let entry ← pair fuel
        return .mapping none [entry] :: (← flowItems fuel false)
      else
        let item ← node fuel false false
        return item :: (← flowItems fuel false)

/-- Reads the only entry of a mapping in a flow sequence. A key that is left out takes the next
token with it. -/
def pair (fuel : Nat) : Reading (Node × Node) :=
  match fuel with
  | 0 => failure
  | fuel + 1 => do
    let key ←
      if ← isNext [.value, .comma, .flowSequenceEnd] then do
        drop
        pure Node.nothing
      else node fuel false false
    let value ← valueUnless fuel false [.comma, .flowSequenceEnd]
    return (key, value)

/-- Reads the entries of a flow mapping up to its end. A key may stand without a value. -/
def flowEntries (fuel : Nat) (first : Bool) : Reading (List (Node × Node)) :=
  match fuel with
  | 0 => failure
  | fuel + 1 => do
    if ← skip .flowMappingEnd then return []
    else
      if !first then
        if !(← skip .comma) then failure
      if ← skip .flowMappingEnd then return []
      else if ← skip .key then
        let key ← nodeUnless fuel false false [.value, .comma, .flowMappingEnd]
        let value ← valueUnless fuel false [.comma, .flowMappingEnd]
        return (key, value) :: (← flowEntries fuel false)
      else
        let key ← node fuel false false
        return (key, .nothing) :: (← flowEntries fuel false)

end

end Reading

/-! ## Reading documents -/

/-- What the handles of tags stand for without directives. -/
def commonHandles : List (String × Tag) :=
  [("!", ⟨some "!"⟩), ("!!", ⟨some "tag:yaml.org,2002:"⟩)]

/-- The handles that directives give. No handle and no version may be given twice. -/
def handlesOf? (versioned : Bool) (handles : List (String × Tag)) :
    List Directive → Option (List (String × Tag))
  | [] => some (handles ++ commonHandles)
  | .version major minor :: rest =>
    if versioned ∨ major ≠ 1 ∨ (minor ≠ 1 ∧ minor ≠ 2) then none
    else handlesOf? true handles rest
  | .handle name tag :: rest =>
    if (handles.lookup name).isSome then none
    else handlesOf? versioned ((name, tag) :: handles) rest

/-- The directives that tokens begin with, and the tokens behind them. -/
def takeDirectives : List Token → List Directive × List Token
  | .directive content :: tokens =>
    let (contents, rest) := takeDirectives tokens
    (content :: contents, rest)
  | tokens => ([], tokens)

/-- Whether a document has no root in front of some tokens. -/
def lacksRoot : List Token → Bool
  | [] => true
  | .directive _ :: _ => true
  | token :: _ => token = .documentStart || token = .documentEnd

/-- Reads the root of a document. -/
def readRoot? (marked : Bool) (draft : Draft) : Option (Node × Draft) :=
  if marked && lacksRoot draft.tokens then some (.nothing, draft)
  else (Reading.node (4 * draft.tokens.length + 4) true false).run draft

namespace Document

/-- Reads tokens that all belong to one document. Directives need the mark of its begin behind
them. -/
def ofTokens? (tokens : List Token) : Option Document := do
  let (directives, rest) := takeDirectives tokens
  let handles ← handlesOf? false [] directives
  let (root, draft) ← match rest with
    | [] => if directives.isEmpty then some (.nothing, ⟨[], handles, [], 0, []⟩) else none
    | .documentStart :: rest => readRoot? true ⟨rest, handles, [], 0, []⟩
    | rest => if directives.isEmpty then readRoot? false ⟨rest, handles, [], 0, []⟩ else none
  if draft.tokens.all (· = .documentEnd) then some ⟨root, draft.named⟩ else none

/-- Reads a text that holds one document or nothing. -/
def ofText? (text : String) : Option Document := (Token.ofText? text).bind ofTokens?

end Document

end StoreQuery.Yaml
