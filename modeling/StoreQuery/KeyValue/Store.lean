import StoreQuery.KeyValue.Compile
import StoreQuery.Request.Page

/-!
# Reading from a key-value store

A store answers the three kinds of read. It is given by its answers over a state of any kind, so
that a law can speak of the calls that were made and of the answers that came back.

The store reads in parts: an answer that holds a next key is not complete. The rows of a request
are those of the first part. Their total is counted by going through all parts, as long as the
budget of calls lasts.

Rows and total are read one after the other here. A program may read them side by side: neither read
needs the answer of the other one, so their order is open, and it shows only in which error is met
where both of them fail.
-/

namespace StoreQuery.KeyValue

/-- The answer to a query or a scan. -/
structure Output where
  items : List Item := []
  count : UInt64 := 0
  nextKey : Option Item := none

/-- The reads of a store. -/
structure Store (σ : Type) where
  getItem : Query → EStateM Error σ (Option Item)
  query : Query → EStateM Error σ Output
  scan : Query → EStateM Error σ Output

namespace Store

variable {σ : Type}

/-- Runs a query or a scan. -/
def run (store : Store σ) (q : Query) : EStateM Error σ Output :=
  match q.kind with
  | .query => store.query q
  | _ => store.scan q

/-- Adds up the counts of all parts, starting from a total. The budget bounds the number of
calls. -/
def countParts (store : Store σ) : Nat → Query → UInt64 → EStateM Error σ UInt64
  | 0, _, _ => throw (.store "the count takes too many calls")
  | budget + 1, q, total => do
    let output ← store.run q
    match output.nextKey with
    | some key => countParts store budget { q with startKey := some key } (total + output.count)
    | none => pure (total + output.count)

end Store

/-- How many calls a count may take, unless it is said otherwise: more than any count of rows. -/
def defaultBudget : Nat := UInt64.size

variable {σ : Type}

/-- Counts the rows of a query over all parts; nothing is counted where that is switched off. -/
def countRows (t : Table) (store : Store σ) (budget : Nat) (q : Query) :
    EStateM Error σ UInt64 :=
  if t.disableCount then pure 0 else store.countParts budget q.countRequest 0

/-- The store that is attached, or the error that there is none. -/
def attached (store : Option (Store σ)) : EStateM Error σ (Store σ) :=
  match store with
  | some store => pure store
  | none => throw (.config .noKeyValueStore)

/-- The query of a request, if the table may be scanned or need not be. -/
def prepare (t : Table) (base : Query) (r : Request) : EStateM Error σ Query :=
  match build t base r with
  | .error e => throw e
  | .ok q =>
    if q.kind = .scan ∧ t.disableScan then throw (.scanDisabled q.tableName) else pure q

/-- Caps a read of one row, unless a filter comes after the limit. -/
def capOne (q : Query) : Query := if q.filter.isNone then { q with limit := some 1 } else q

/-- The first row of a request. -/
def getOne (t : Table) (store : Option (Store σ)) (base : Query) (r : Request) :
    EStateM Error σ (Option Json) := do
  let store ← attached store
  let q ← prepare t base r
  match q.kind with
  | .getItem => do
    let item ← store.getItem q
    pure (item.map Item.toJson)
  | _ => do
    let output ← store.run (capOne q)
    pure (output.items.head?.map Item.toJson)

/-- A page of the rows of a request. -/
def getMany (t : Table) (store : Option (Store σ)) (budget : Nat) (base : Query) (r : Request) :
    EStateM Error σ (Page Json) := do
  let store ← attached store
  let q ← prepare t base r
  match q.kind with
  | .getItem => do
    let item ← store.getItem q
    let rows := (item.map Item.toJson).toList
    pure (.shape rows (UInt64.ofNat rows.length) 0 r.limit)
  | _ => do
    let output ← store.run q
    let total ← countRows t store budget q
    pure (.shape (output.items.map Item.toJson) total 0 r.limit)

end StoreQuery.KeyValue
