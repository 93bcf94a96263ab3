import StoreQuery.KeyValue.Attribute
import StoreQuery.Path
import StoreQuery.Text.Numbered
import StoreQuery.Text.Split

/-!
# Calls of a key-value store

One record describes every read of a key-value store. It is a lookup of one item if it has a key,
a query of one partition if it has a key condition, and a scan of the whole table otherwise.

Expressions never hold a property name or a value. They hold tokens: `#…` for a name, looked up in
`names`, and `:…` for a value, looked up in `values`. A token is made from the path with every
character but ASCII letters, digits and `_` replaced, and a number behind it where it would clash.
-/

namespace StoreQuery.KeyValue

/-- What a call gives back. -/
inductive Selection where
  | allAttributes
  | allProjectedAttributes
  | specificAttributes
  | count
  deriving DecidableEq, Repr

/-- Which call of the store a query is. -/
inductive QueryKind where
  | getItem
  | query
  | scan
  deriving DecidableEq, Repr

/-- A read of a key-value store. -/
structure Query where
  tableName : String
  key : Option Item := none
  keyCondition : Option String := none
  filter : Option String := none
  projection : Option String := none
  names : Dict String := .empty
  values : Dict Attribute := .empty
  limit : Option UInt64 := none
  scanForward : Option Bool := none
  select : Option Selection := none
  startKey : Option Item := none

namespace Selection

def all : List Selection := [allAttributes, allProjectedAttributes, specificAttributes, count]

def name : Selection → String
  | allAttributes => "ALL_ATTRIBUTES"
  | allProjectedAttributes => "ALL_PROJECTED_ATTRIBUTES"
  | specificAttributes => "SPECIFIC_ATTRIBUTES"
  | count => "COUNT"

def ofName? (text : String) : Option Selection := all.find? fun s => s.name = text

end Selection

namespace QueryKind

def name : QueryKind → String
  | getItem => "GetItem"
  | query => "Query"
  | scan => "Scan"

end QueryKind

namespace Query

instance : Inhabited Query := ⟨{ tableName := "" }⟩

/-- The call that the query is. -/
def kind (q : Query) : QueryKind :=
  if q.key.isSome then .getItem else if q.keyCondition.isSome then .query else .scan

/-! ## Names -/

/-- Whether a character may stand in a token. -/
def isTokenChar (c : Char) : Bool := c.isAlphanum || c == '_'

/-- The text of a path with every character that may not stand in a token replaced. -/
def sanitize (path : Path) : String :=
  String.ofList (path.toText.toList.map fun c => if isTokenChar c then c else '_')

/-- Whether a name token is free, or already stands for a property. -/
def nameFits (q : Query) (field token : String) : Bool :=
  match q.names.find? token with
  | none => true
  | some other => other == field

/-- The token of a property: the first one that stands for it or is free. Every name in use rules
out one token at most. -/
def nameToken (q : Query) (path : Path) : String :=
  let base := "#" ++ sanitize path
  Text.numbered base
    (Text.firstFrom (q.names.size + 1) (fun n => q.nameFits path.toText (Text.numbered base n)) 0)

/-- Makes a token stand for a property. -/
def registerName (q : Query) (path : Path) : String × Query :=
  let token := q.nameToken path
  (token, { q with names := q.names.insert token path.toText })

/-! ## Values -/

/-- The token that stands for null. -/
def nullToken : String := ":null"

/-- How many values are bound under a token, and under which names. -/
inductive Binding where
  | single
  | range
  | list (count : Nat)
  deriving DecidableEq, Repr

namespace Binding

/-- The name for the first of two bounds. -/
def startOf (token : String) : String := token ++ "_start"

/-- The name for the second of two bounds. -/
def endOf (token : String) : String := token ++ "_end"

/-- The name for an item of a list. -/
def itemOf (token : String) (index : Nat) : String := token ++ "_" ++ Text.ofNat index

/-- The names that are bound under a token. -/
def names (token : String) : Binding → List String
  | .single => [token]
  | .range => [startOf token, endOf token]
  | .list count => (List.range count).map (itemOf token)

end Binding

/-- Whether a value token is in use, or a name that belongs to it is. -/
def tokenTaken (q : Query) (binding : Binding) (token : String) : Bool :=
  token == nullToken || q.values.contains token || q.values.contains (Binding.startOf token)
    || q.values.contains (Binding.itemOf token 0)
    || (binding.names token).any q.values.contains

/-- A free value token for a path. A name in use rules out three tokens at most, being the token,
one of its bounds or one of its items; the token of null rules out one. -/
def valueToken (q : Query) (path : Path) (binding : Binding) : String :=
  let base := ":" ++ sanitize path
  Text.numbered base
    (Text.firstFrom (3 * q.values.size + 2)
      (fun n => !q.tokenTaken binding (Text.numbered base n)) 0)

/-- Binds a name to a value. -/
def bind (q : Query) (name : String) (value : Attribute) : Query :=
  { q with values := q.values.insert name value }

/-- Binds a free token to a value. -/
def registerValue (q : Query) (path : Path) (value : Scalar) : String × Query :=
  let token := q.valueToken path .single
  (token, q.bind token (.ofScalar value))

/-- Binds the token of null, if it is not bound. -/
def bindNull (q : Query) : Query :=
  if q.values.contains nullToken then q else q.bind nullToken (.null true)

/-! ## Expressions -/

/-- Adds an expression to the filter; both hold. -/
def addFilter (q : Query) (expression : String) : Query :=
  match q.filter with
  | some existing => { q with filter := some ("(" ++ existing ++ ") AND (" ++ expression ++ ")") }
  | none => { q with filter := some expression }

/-- The items of a list without those that stand before. -/
def distinct (seen : List String) : List String → List String
  | [] => []
  | item :: rest =>
    if seen.contains item then distinct seen rest else item :: distinct (item :: seen) rest

/-- The entries of a projection. -/
def projectionItems (q : Query) : List String :=
  match q.projection with
  | some text => ((Text.split ',' text).map Text.trim).filter (· ≠ "")
  | none => []

/-- Adds entries to the projection, behind those there are. -/
def addProjection (q : Query) (tokens : List String) : Query :=
  { q with projection := some (Text.join ", " (distinct [] (q.projectionItems ++ tokens))) }

/-! ## Counting -/

/-- The tokens in an expression: a `#` or `:` with all the token characters behind it, of which
there is at least one. The first argument bounds the length of the expression. -/
def tokensIn : Nat → List Char → List String
  | 0, _ => []
  | _, [] => []
  | fuel + 1, c :: cs =>
    let body := cs.takeWhile isTokenChar
    if (c = '#' ∨ c = ':') ∧ body ≠ [] then
      String.ofList (c :: body) :: tokensIn fuel (cs.dropWhile isTokenChar)
    else tokensIn fuel cs

/-- The tokens that the expressions of a query use. -/
def tokens (q : Query) : List String :=
  [q.keyCondition, q.filter, q.projection].flatMap fun
    | some text => tokensIn (text.length + 1) text.toList
    | none => []

/-- The query that counts the rows of a query: without projection and limit, and without the names
and values that it does not use. -/
def countRequest (q : Query) : Query :=
  let bare := { q with projection := none, limit := none, select := some .count }
  let used := bare.tokens
  { bare with
    names := bare.names.keepKeys used.contains
    values := bare.values.keepKeys used.contains }

/-! ## JSON -/

def encodeNames (names : Dict String) : Json :=
  .obj (names.entries.map fun (token, field) => (token, .str field))

/-- A dictionary that is left out when it is empty. -/
def unlessEmpty {α : Type} (encode : Dict α → Json) (d : Dict α) : Option Json :=
  if d.isEmpty then none else some (encode d)

/-- The JSON value of a query, without the parts that it does not have. -/
def encode (q : Query) : Json :=
  .obj <|
    [("TableName", .str q.tableName)]
    ++ Json.optional "Key" (q.key.map Item.encode)
    ++ Json.optional "KeyConditionExpression" (q.keyCondition.map .str)
    ++ Json.optional "FilterExpression" (q.filter.map .str)
    ++ Json.optional "ProjectionExpression" (q.projection.map .str)
    ++ Json.optional "ExpressionAttributeNames" (unlessEmpty encodeNames q.names)
    ++ Json.optional "ExpressionAttributeValues" (unlessEmpty Item.encode q.values)
    ++ Json.optional "Limit" (q.limit.map .ofUInt64)
    ++ Json.optional "ScanIndexForward" (q.scanForward.map .bool)
    ++ Json.optional "Select" (q.select.map fun s => .str s.name)
    ++ Json.optional "ExclusiveStartKey" (q.startKey.map Item.encode)

def decodeName? (member : String × Json) : Option (String × String) :=
  member.2.asText?.map fun field => (member.1, field)

def decodeNames? : Json → Option (Dict String)
  | .obj members =>
    (members.mapM decodeName?).map Dict.ofList
  | _ => none

def decode? (value : Json) : Option Query := do
  match ← Json.fields? [.needed "TableName", .needed "Key", .needed "KeyConditionExpression",
      .needed "FilterExpression", .needed "ProjectionExpression",
      .spare "ExpressionAttributeNames", .spare "ExpressionAttributeValues", .needed "Limit",
      .needed "ScanIndexForward", .needed "Select", .needed "ExclusiveStartKey"] value with
  | [table, key, keyCondition, filter, projection, names, values, limit, forward, select, start] =>
    some {
      tableName := ← Json.required? Json.asText? table
      key := ← Json.optional? Item.decode? key
      keyCondition := ← Json.optional? Json.asText? keyCondition
      filter := ← Json.optional? Json.asText? filter
      projection := ← Json.optional? Json.asText? projection
      names := ← Json.withDefault? .empty decodeNames? names
      values := ← Json.withDefault? .empty Item.decode? values
      limit := ← Json.optional? Json.word? limit
      scanForward := ← Json.optional? Json.bool? forward
      select := ← Json.optional? (Json.choice? Selection.ofName?) select
      startKey := ← Json.optional? Item.decode? start }
  | _ => none

end Query

end StoreQuery.KeyValue
