import StoreQuery.Sql.Build

/-!
# Reading from a relational store

A store answers select queries. It is given by its answers over a state of any kind, so that a law
can speak of the calls that were made.

Rows and total are read one after the other here. A program may read them side by side: neither read
needs the answer of the other one, so their order is open, and it shows only in which error is met
where both of them fail.
-/

namespace StoreQuery.Sql

/-- The reads of a relational store. Counting leaves the part that a query asks for out of
account. -/
structure Store (σ : Type) where
  fetchMany : Query → EStateM Error σ (List Json)
  fetchOne : Query → EStateM Error σ (Option Json)
  count : Query → EStateM Error σ UInt64

variable {σ : Type}

/-- The store that is attached, or the error that there is none. -/
def attached (store : Option (Store σ)) : EStateM Error σ (Store σ) :=
  match store with
  | some store => pure store
  | none => throw (.config .noSqlStore)

/-- The query for all rows of a request as a step that may fail. -/
def prepare (schema : Schema) (base : Query) (r : Request) : EStateM Error σ Query :=
  match buildAll schema base r with
  | .ok q => pure q
  | .error e => throw e

/-- The first row of a request. -/
def getOne (schema : Schema) (store : Option (Store σ)) (base : Query) (r : Request) :
    EStateM Error σ (Option Json) := do
  let store ← attached store
  let q ← prepare schema base r
  store.fetchOne q

/-- A page of the rows of a request. -/
def getMany (schema : Schema) (store : Option (Store σ)) (base : Query) (r : Request) :
    EStateM Error σ (Page Json) := do
  let store ← attached store
  let q ← prepare schema base r
  let rows ← store.fetchMany (paginate r q)
  let total ← store.count q
  pure (.shape rows total r.start r.limit)

end StoreQuery.Sql
