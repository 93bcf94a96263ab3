import StoreQuery.Dict
import StoreQuery.Request.Basic

/-!
# Select queries

A select query reads one table under an alias: what is selected, the tables that are joined, a
condition with named parameters, an order and a part of the result. `Query.text` writes it as a
statement, in which `:name` stands for a parameter and `:...name` for a list of them.
-/

namespace StoreQuery.Sql

/-- The database that a query is meant for. -/
inductive Dialect where
  | postgres
  | auroraPostgres
  | mySql
  | sqlite
  | msSql
  | other
  deriving DecidableEq, Repr

namespace Dialect

def all : List Dialect := [postgres, auroraPostgres, mySql, sqlite, msSql, other]

def name : Dialect → String
  | postgres => "postgres"
  | auroraPostgres => "aurora-postgres"
  | mySql => "my-sql"
  | sqlite => "sqlite"
  | msSql => "ms-sql"
  | other => "other"

def ofName? (text : String) : Option Dialect := all.find? fun d => d.name = text

/-- Whether the database can compare patterns without regard to case. -/
def hasILike : Dialect → Bool
  | postgres | auroraPostgres => true
  | _ => false

end Dialect

/-- A joined relation: the alias of the parent with the property, and the alias it gets. -/
structure Join where
  relationPath : String
  aliasName : String
  selectAll : Bool
  deriving DecidableEq, Repr

/-- A sorted column. -/
structure SortColumn where
  column : String
  direction : Direction
  deriving DecidableEq, Repr

/-- A select query. -/
structure Query where
  entity : String
  table : String
  aliasName : String
  selections : List String
  joins : List Join := []
  condition : Option String := none
  parameters : Dict Operand := .empty
  order : List SortColumn := []
  limit : Option UInt64 := none
  offset : Option UInt64 := none

namespace Query

/-- The query for all columns of an entity under an alias. -/
def of (entity aliasName : String) : Query :=
  { entity, table := entity, aliasName, selections := [aliasName] }

instance : Inhabited Query := ⟨of "" ""⟩

/-- Adds a condition with its parameters; both conditions hold. -/
def addCondition (q : Query) (condition : String) (parameters : Dict Operand) : Query :=
  { q with
    condition := some <| match q.condition with
      | some existing => "(" ++ existing ++ ") AND (" ++ condition ++ ")"
      | none => condition
    parameters := q.parameters.insertAll parameters.entries }

/-- The query for all rows, whatever part was asked for. -/
def withoutPagination (q : Query) : Query := { q with limit := none, offset := none }

/-- Whether a dictionary has a parameter of a name, or the lower of two bounds of that name. -/
def hasName (parameters : Dict Operand) (name : String) : Bool :=
  parameters.contains name || parameters.contains (name ++ "_start")

/-- Whether a parameter name is in use. -/
def hasParameter (q : Query) (name : String) : Bool := hasName q.parameters name

/-! ## The statement -/

/-- A part of a statement that is left out when there is nothing to say. -/
def clause (word : String) (items : List String) : String :=
  if items.isEmpty then "" else " " ++ word ++ " " ++ Text.join ", " items

def joinText (join : Join) : String := " LEFT JOIN " ++ join.relationPath ++ " " ++ join.aliasName

/-- The statement. -/
def text (q : Query) : String :=
  "SELECT " ++ (if q.selections.isEmpty then "*" else Text.join ", " q.selections)
    ++ " FROM " ++ q.table ++ " " ++ q.aliasName
    ++ Text.join "" (q.joins.map joinText)
    ++ clause "WHERE" q.condition.toList
    ++ clause "ORDER BY" (q.order.map fun o => o.column ++ " " ++ o.direction.text)
    ++ clause "LIMIT" (q.limit.map fun n => Text.ofNat n.toNat).toList
    ++ clause "OFFSET" (q.offset.map fun n => Text.ofNat n.toNat).toList

/-! ## JSON -/

def encodeJoin (join : Join) : Json :=
  .obj [("relation_path", .str join.relationPath), ("alias", .str join.aliasName),
    ("select_all", .bool join.selectAll)]

def encodeSortColumn (o : SortColumn) : Json := .arr [.str o.column, .str o.direction.text]

def encodeMembers (q : Query) : Json.Members :=
  [("entity", .str q.entity), ("table", .str q.table), ("alias", .str q.aliasName),
    ("selections", .ofStrings q.selections), ("joins", .arr (q.joins.map encodeJoin))]
  ++ Json.optional "where" (q.condition.map .str)
  ++ [("parameters", .obj (q.parameters.entries.map fun (name, value) => (name, value.encode))),
    ("orderBy", .arr (q.order.map encodeSortColumn))]
  ++ Json.optional "limit" (q.limit.map .ofUInt64)
  ++ Json.optional "offset" (q.offset.map .ofUInt64)

def encode (q : Query) : Json := .obj q.encodeMembers

def decodeJoin? (value : Json) : Option Join := do
  match ← Json.fields? [.needed "relation_path", .needed "alias", .needed "select_all"] value with
  | [path, name, selectAll] =>
    some {
      relationPath := ← Json.required? Json.asText? path
      aliasName := ← Json.required? Json.asText? name
      selectAll := ← Json.required? Json.bool? selectAll }
  | _ => none

def decodeSortColumn? : Json → Option SortColumn
  | .arr [column, direction] => do
    some ⟨← column.asText?, ← Request.decodeDirection? direction⟩
  | _ => none

def decodeParameter? (member : String × Json) : Option (String × Operand) :=
  (Operand.ofJson? member.2).map fun value => (member.1, value)

def decodeParameters? : Json → Option (Dict Operand)
  | .obj members => (members.mapM decodeParameter?).map Dict.ofList
  | _ => none

def decode? (value : Json) : Option Query := do
  match ← Json.fields? [.needed "entity", .needed "table", .needed "alias",
      .needed "selections", .needed "joins", .needed "where", .needed "parameters",
      .needed "orderBy", .needed "limit", .needed "offset"] value with
  | [entity, table, name, selections, joins, condition, parameters, order, limit, offset] =>
    some {
      entity := ← Json.required? Json.asText? entity
      table := ← Json.required? Json.asText? table
      aliasName := ← Json.required? Json.asText? name
      selections := ← Json.required? (Json.list? Json.asText?) selections
      joins := ← Json.required? (Json.list? decodeJoin?) joins
      condition := ← Json.optional? Json.asText? condition
      parameters := ← Json.required? decodeParameters? parameters
      order := ← Json.required? (Json.list? decodeSortColumn?) order
      limit := ← Json.optional? Json.word? limit
      offset := ← Json.optional? Json.word? offset }
  | _ => none

end Query

end StoreQuery.Sql
