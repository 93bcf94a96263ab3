import StoreQuery.Dict

/-!
# Entities of a relational store

The registry knows the columns of each entity and the entities that its relations lead to. A path
is a column if all its segments but the last are relations, one after the other, and the last one
is a column of the entity they lead to. Relations may go round in circles.
-/

namespace StoreQuery.Sql

/-- An entity as a configuration describes it. Without a table name the table is called like the
entity. -/
structure EntitySettings where
  table : Option String := none
  columns : List String := []
  relations : Dict String := .empty
  deriving DecidableEq

/-- An entity: its table, its columns, and the entities that its relations lead to. -/
structure Entity where
  name : String
  table : String
  columns : List String
  relations : Dict String
  deriving DecidableEq

/-- All entities, by name. -/
abbrev Registry := Dict Entity

/-- The entity of a given name that settings describe. -/
def EntitySettings.entity (s : EntitySettings) (name : String) : Entity :=
  ⟨name, s.table.getD name, s.columns, s.relations⟩

namespace Registry

/-- Adds an entity under its name. -/
def register (registry : Registry) (entity : Entity) : Registry :=
  registry.insert entity.name entity

/-- The registry of the entities that settings describe. -/
def ofSettings (entities : Dict EntitySettings) : Registry :=
  entities.entries.foldl (fun registry e => register registry (e.2.entity e.1)) .empty

/-- The entity that a relation of an entity leads to. -/
def hop (registry : Registry) (entity : Entity) (relation : String) : Option Entity :=
  (entity.relations.find? relation).bind registry.find?

/-- The entity at the end of a chain of relations. -/
def followFrom (registry : Registry) (entity : Entity) : List String → Option Entity
  | [] => some entity
  | relation :: rest =>
    match registry.hop entity relation with
    | some next => registry.followFrom next rest
    | none => none

/-- The entity at the end of a chain of relations that starts at a named one. -/
def follow (registry : Registry) (entity : String) (relations : List String) : Option Entity :=
  (registry.find? entity).bind fun start => registry.followFrom start relations

/-- Whether a path leads to a column. -/
def isColumn (registry : Registry) (entity : String) (path : List String) : Bool :=
  match path.getLast? with
  | some name =>
    (registry.follow entity path.dropLast).any fun target => target.columns.contains name
  | none => false

/-- Whether a path consists of relations. -/
def isRelation (registry : Registry) (entity : String) (path : List String) : Bool :=
  !path.isEmpty && (registry.follow entity path).isSome

end Registry

end StoreQuery.Sql
