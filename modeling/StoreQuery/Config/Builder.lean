import StoreQuery.Config.Basic

/-!
# Changing configurations

A configuration is put together by setters, each of which changes one setting, and is checked when
it is finished. What is set for a key-value table holds only if there is one by then.
-/

namespace StoreQuery.Config

/-- Names the key-value table and its keys, and keeps its other settings. -/
def withTable (c : Config) (name partitionKey : String) (sortKey : Option String) : Config :=
  { c with
    table := some { c.table.getD {} with tableName := name, partitionKey, sortKey } }

/-- Forbids or allows scans of the key-value table, if there is one. -/
def withScanDisabled (c : Config) (on : Bool) : Config :=
  { c with table := c.table.map fun t => { t with disableScan := on } }

/-- Switches counting off or on in the document store, and in the key-value table if there is
one. -/
def withCountDisabled (c : Config) (on : Bool) : Config :=
  { c with
    document := { c.document with disableCount := on }
    table := c.table.map fun t => { t with disableCount := on } }

/-- Says whether patterns are compared without regard to case. -/
def withILike (c : Config) (on : Bool) : Config := { c with sql := { c.sql with iLike := some on } }

/-- Describes an entity. -/
def withEntity (c : Config) (name : String) (entity : Sql.EntitySettings) : Config :=
  { c with sql := { c.sql with entities := c.sql.entities.insert name entity } }

/-- Sets both limits. -/
def withLimits (c : Config) (limits : Limits) : Config := { c with limits }

def withLogLevel (c : Config) (level : LogLevel) : Config := { c with logLevel := level }

def withDebug (c : Config) (on : Bool) : Config := { c with debug := on }

/-- Finishes a configuration: it must be valid. -/
def finish (c : Config) : Except Error Config := c.validate.map fun _ => c

end StoreQuery.Config
