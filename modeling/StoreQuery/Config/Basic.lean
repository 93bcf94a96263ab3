import StoreQuery.Document.Cursor
import StoreQuery.KeyValue.Compile
import StoreQuery.Sql.Build

/-!
# Configurations

A configuration says what the stores look like and how far requests may go. A valid one has no
relation to an entity that it does not describe, a named table with two different keys if it has a
key-value table, and limits that are positive and do not cross.
-/

namespace StoreQuery

/-- The limit of requests that have none, and the largest limit of any request. -/
structure Limits where
  default : Option UInt64 := none
  max : Option UInt64 := none
  deriving DecidableEq, Repr

/-- How much is logged. -/
inductive LogLevel where
  | trace
  | debug
  | info
  | warn
  | error
  deriving DecidableEq, Repr

namespace LogLevel

def all : List LogLevel := [trace, debug, info, warn, error]

def name : LogLevel → String
  | trace => "trace"
  | debug => "debug"
  | info => "info"
  | warn => "warn"
  | error => "error"

def ofName? (text : String) : Option LogLevel := all.find? fun level => level.name = text

end LogLevel

/-- A configuration. -/
structure Config where
  sql : Sql.Settings := {}
  document : Document.Settings := {}
  table : Option KeyValue.Table := none
  limits : Limits := {}
  logLevel : LogLevel := .info
  debug : Bool := false
  deriving DecidableEq

namespace Config

instance : Inhabited Config := ⟨{}⟩

/-! ## Validity -/

/-- The first relation of an entity that leads to no entity. -/
def strayRelation? (entities : Dict Sql.EntitySettings) (name : String)
    (entity : Sql.EntitySettings) : Option ConfigFault :=
  entity.relations.entries.findSome? fun (relation, target) =>
    if entities.contains target then none else some (.unknownTarget name relation target)

/-- The first relation that leads to no entity. -/
def strayTarget? (entities : Dict Sql.EntitySettings) : Option ConfigFault :=
  entities.entries.findSome? fun (name, entity) => strayRelation? entities name entity

/-- What is wrong with a key-value table. -/
def tableFault? (t : KeyValue.Table) : Option ConfigFault :=
  if t.tableName = "" then some .emptyTableName
  else if t.partitionKey = "" then some .emptyPartitionKey
  else if t.sortKey = some t.partitionKey then some (.sameKeys t.partitionKey)
  else none

/-- What is wrong with limits. -/
def limitFault? (l : Limits) : Option ConfigFault :=
  if l.default = some 0 ∨ l.max = some 0 then some .zeroLimit
  else match l.default, l.max with
    | some default, some max =>
      if max < default then some (.crossedLimits default max) else none
    | _, _ => none

/-- The first thing that is wrong with a configuration. -/
def fault? (c : Config) : Option ConfigFault :=
  (strayTarget? c.sql.entities).or <| (c.table.bind tableFault?).or <| limitFault? c.limits

/-- Checks a configuration. -/
def validate (c : Config) : Except Error Unit :=
  match c.fault? with
  | some fault => .error (.config fault)
  | none => .ok ()

/-! ## JSON -/

/-- A value that may be null. -/
def nullable {α : Type} (encode : α → Json) : Option α → Json
  | some value => encode value
  | none => .null

def encodePolicies (p : Sql.Policies) : Json :=
  .obj [("select", .str p.select.name), ("order", .str p.order.name),
    ("where", .str p.condition.name), ("relations", .str p.relations.name)]

def encodeEntity (e : Sql.EntitySettings) : Json :=
  .obj [("table", nullable .str e.table), ("columns", .ofStrings e.columns),
    ("relations", .obj (e.relations.entries.map fun (name, target) => (name, .str target)))]

def encodeSql (s : Sql.Settings) : Json :=
  .obj [("case_insensitive_like", nullable .bool s.iLike),
    ("invalid_fields", encodePolicies s.policies),
    ("entities", .obj (s.entities.entries.map fun (name, e) => (name, encodeEntity e)))]

def encodeTable (t : KeyValue.Table) : Json :=
  .obj [("table_name", .str t.tableName), ("partition_key", .str t.partitionKey),
    ("sort_key", nullable .str t.sortKey), ("disable_count", .bool t.disableCount),
    ("disable_scan", .bool t.disableScan)]

/-- The JSON value of a configuration. It does not show the debug mode. -/
def encode (c : Config) : Json :=
  .obj [("sql", encodeSql c.sql),
    ("mongo", .obj [("disable_count", .bool c.document.disableCount)]),
    ("dynamodb", nullable encodeTable c.table),
    ("parser", .obj [("default_limit", nullable .ofUInt64 c.limits.default),
      ("max_limit", nullable .ofUInt64 c.limits.max)]),
    ("logging", .obj [("level", .str c.logLevel.name)])]

end Config

end StoreQuery
