import StoreQuery.Document.Filter

/-!
# Cursors of a document store

A cursor names what is read from a collection: a filter, a projection, an order, and which part of
the result. The filter of a request takes the place of the one that a cursor has; projection and
order do so only if the request has them.

Documents and total are read one after the other here. A program may read them side by side: neither
read needs the answer of the other one, so their order is open, and it shows only in which error is
met where both of them fail.
-/

namespace StoreQuery.Document

/-- Settings of a document store. -/
structure Settings where
  disableCount : Bool := false
  deriving DecidableEq, Repr

/-- A read of a collection. -/
structure Cursor where
  filter : Json.Members := []
  projection : Option Json.Members := none
  sort : List SortKey := []
  skip : Option UInt64 := none
  limit : Option UInt64 := none

namespace Cursor

instance : Inhabited Cursor := ⟨{}⟩

def encode (c : Cursor) : Json :=
  .obj <|
    [("filter", .obj c.filter)]
    ++ Json.optional "projection" (c.projection.map .obj)
    ++ Json.optional "sort" (encodeSort c.sort)
    ++ Json.optional "skip" (c.skip.map .ofUInt64)
    ++ Json.optional "limit" (c.limit.map .ofUInt64)

/-- The cursor with the filter, the projection and the order of a request. -/
def adapt (c : Cursor) (r : Request) : Except Error Cursor :=
  (Document.filter r.condition).map fun filter =>
    { c with
      filter
      projection := (Document.projection r.select).or c.projection
      sort := if r.order.isEmpty then c.sort else sortKeys r.order }

/-- The cursor with the part that a request asks for. -/
def paginate (c : Cursor) (r : Request) : Cursor :=
  { c with
    skip := if 0 < r.start then some r.start else c.skip
    limit := r.limit.or c.limit }

/-- The cursor of a request, starting from a base. -/
def build (base : Cursor) (r : Request) : Except Error Cursor :=
  (base.adapt r).map (·.paginate r)

end Cursor

/-- The reads of a collection. -/
structure Collection (σ : Type) where
  find : Cursor → EStateM Error σ (List Json)
  findOne : Cursor → EStateM Error σ (Option Json)
  count : Json.Members → EStateM Error σ UInt64

namespace Cursor

variable {σ : Type}

/-- The collection that is attached, or the error that there is none. -/
def attached (collection : Option (Collection σ)) : EStateM Error σ (Collection σ) :=
  match collection with
  | some collection => pure collection
  | none => throw (.config .noCollection)

/-- The cursor of a request as a step that may fail. -/
def prepare (base : Cursor) (r : Request) : EStateM Error σ Cursor :=
  match base.build r with
  | .ok c => pure c
  | .error e => throw e

/-- The first document in the part that a request asks for. -/
def getOne (collection : Option (Collection σ)) (base : Cursor) (r : Request) :
    EStateM Error σ (Option Json) := do
  let collection ← attached collection
  let c ← prepare base r
  collection.findOne c

/-- A page of the documents of a request. -/
def getMany (settings : Settings) (collection : Option (Collection σ)) (base : Cursor)
    (r : Request) : EStateM Error σ (Page Json) := do
  let collection ← attached collection
  let c ← prepare base r
  let rows ← collection.find c
  let total ← if settings.disableCount then pure 0 else collection.count c.filter
  pure (.shape rows total r.start r.limit)

end Cursor

end StoreQuery.Document
