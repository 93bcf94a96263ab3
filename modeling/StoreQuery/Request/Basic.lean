import StoreQuery.Condition.Json

/-!
# Requests

A request asks a store for entities: which properties, joined with which relations, in which
order, under which condition, and which part of the result. The part is given by an offset, or by
a page number together with a limit; an offset wins.
-/

namespace StoreQuery

/-- The direction in which a property is sorted. -/
inductive Direction where
  | ascending
  | descending
  deriving DecidableEq, Repr

/-- A sort key. -/
structure Order where
  path : Path
  direction : Direction
  deriving DecidableEq, Repr

/-- A relation to join, perhaps under a name of its own. -/
structure Relation where
  path : Path
  aliasName : Option String
  deriving DecidableEq, Repr

/-- What is asked of a store. -/
structure Request where
  select : List Path := []
  relations : List Relation := []
  order : List Order := []
  condition : Condition := .unconstrained
  limit : Option UInt64 := none
  offset : Option UInt64 := none
  page : Option UInt64 := none

namespace Direction

def text : Direction → String
  | .ascending => "ASC"
  | .descending => "DESC"

def ofName? (name : String) : Option Direction :=
  [ascending, descending].find? fun d => d.text = name

/-- Reads a direction in any case, with blanks around it. -/
def ofText? (text : String) : Option Direction := ofName? (Text.upperAscii (Text.trim text))

end Direction

namespace Request

instance : Inhabited Request := ⟨{}⟩

/-! ## Writing -/

def encodeOrder (o : Order) : Json :=
  .obj [("field", o.path.encode), ("order", .str o.direction.text)]

def encodeRelation (r : Relation) : Json :=
  .obj (("field", r.path.encode) :: Json.optional "alias" (r.aliasName.map .str))

/-- The JSON value of a request. Limit, offset and page are left out where there are none. -/
def encode (r : Request) : Json :=
  .obj <|
    [("select", .arr (r.select.map Path.encode)),
      ("relations", .arr (r.relations.map encodeRelation)),
      ("order", .arr (r.order.map encodeOrder)),
      ("where", r.condition.encode)]
    ++ Json.optional "limit" (r.limit.map .ofUInt64)
    ++ Json.optional "offset" (r.offset.map .ofUInt64)
    ++ Json.optional "page" (r.page.map .ofUInt64)

/-! ## Reading -/

def decodeDirection? (value : Json) : Option Direction := Json.choice? Direction.ofName? value

def decodeOrder? (value : Json) : Option Order := do
  match ← Json.fields? [.needed "field", .needed "order"] value with
  | [path, direction] =>
    some {
      path := ← Json.required? Path.decode? path
      direction := ← Json.required? decodeDirection? direction }
  | _ => none

def decodeRelation? (value : Json) : Option Relation := do
  match ← Json.fields? [.needed "field", .spare "alias"] value with
  | [path, name] =>
    some {
      path := ← Json.required? Path.decode? path
      aliasName := ← Json.optional? Json.asText? name }
  | _ => none

/-- Reads a request; whatever is left out has its default. -/
def decode? (value : Json) : Option Request := do
  match ← Json.fields? [.spare "select", .spare "relations", .spare "order", .spare "where",
      .spare "limit", .spare "offset", .spare "page"] value with
  | [select, relations, order, condition, limit, offset, page] =>
    some {
      select := ← Json.withDefault? [] (Json.list? Path.decode?) select
      relations := ← Json.withDefault? [] (Json.list? decodeRelation?) relations
      order := ← Json.withDefault? [] (Json.list? decodeOrder?) order
      condition := ← Json.withDefault? .unconstrained Condition.decode? condition
      limit := ← Json.optional? Json.word? limit
      offset := ← Json.optional? Json.word? offset
      page := ← Json.optional? Json.word? page }
  | _ => none

end Request

end StoreQuery
