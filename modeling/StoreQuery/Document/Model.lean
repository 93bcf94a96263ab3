import StoreQuery.Document.Cursor

/-!
# Model queries of a document store

A model query gathers conditions, all of which hold. A base may bring conditions of its own, such
as a tenant; the filter of a request comes on top of them and does not take their place.

Documents and total are read one after the other here. A program may read them side by side: neither
read needs the answer of the other one, so their order is open, and it shows only in which error is
met where both of them fail.
-/

namespace StoreQuery.Document

/-- A read of a model. -/
structure ModelQuery where
  conditions : List Json.Members := []
  projection : Option Json.Members := none
  sort : List SortKey := []
  skip : Option UInt64 := none
  limit : Option UInt64 := none

namespace ModelQuery

instance : Inhabited ModelQuery := ⟨{}⟩

/-- Adds a condition; the empty document adds nothing. -/
def require (q : ModelQuery) (condition : Json.Members) : ModelQuery :=
  if condition.isEmpty then q else { q with conditions := q.conditions ++ [condition] }

/-- All conditions as one filter. -/
def filter (q : ModelQuery) : Json.Members :=
  match q.conditions with
  | [] => []
  | [only] => only
  | all => joinDocuments .and all

def encode (q : ModelQuery) : Json :=
  .obj <|
    [("conditions", .arr (q.conditions.map .obj))]
    ++ Json.optional "projection" (q.projection.map .obj)
    ++ Json.optional "sort" (encodeSort q.sort)
    ++ Json.optional "skip" (q.skip.map .ofUInt64)
    ++ Json.optional "limit" (q.limit.map .ofUInt64)

/-- The query with the filter of a request on top. -/
def restrict (q : ModelQuery) (r : Request) : Except Error ModelQuery :=
  (Document.filter r.condition).map q.require

/-- The query with the projection and the order of a request, where it has them. -/
def arrange (q : ModelQuery) (r : Request) : ModelQuery :=
  { q with
    projection := (Document.projection r.select).or q.projection
    sort := if r.order.isEmpty then q.sort else sortKeys r.order }

/-- The query with the part that a request asks for. -/
def paginate (q : ModelQuery) (r : Request) : ModelQuery :=
  { q with
    skip := if 0 < r.start then some r.start else q.skip
    limit := r.limit.or q.limit }

/-- The query of a request, starting from a base. -/
def build (base : ModelQuery) (r : Request) : Except Error ModelQuery :=
  (base.restrict r).map fun q => (q.arrange r).paginate r

end ModelQuery

/-- The reads of a model. -/
structure Model (σ : Type) where
  exec : ModelQuery → EStateM Error σ (List Json)
  count : ModelQuery → EStateM Error σ UInt64

namespace ModelQuery

variable {σ : Type}

/-- The model that is attached, or the error that there is none. -/
def attached (model : Option (Model σ)) : EStateM Error σ (Model σ) :=
  match model with
  | some model => pure model
  | none => throw (.config .noModelStore)

/-- The restricted query as a step that may fail. -/
def prepare (base : ModelQuery) (r : Request) : EStateM Error σ ModelQuery :=
  match base.restrict r with
  | .ok q => pure q
  | .error e => throw e

/-- The first document of a request. -/
def getOne (model : Option (Model σ)) (base : ModelQuery) (r : Request) :
    EStateM Error σ (Option Json) := do
  let model ← attached model
  let q ← prepare base r
  let rows ← model.exec { q.arrange r with limit := some 1 }
  pure rows.head?

/-- A page of the documents of a request. The total does not depend on the part asked for. -/
def getMany (settings : Settings) (model : Option (Model σ)) (base : ModelQuery) (r : Request) :
    EStateM Error σ (Page Json) := do
  let model ← attached model
  let q ← prepare base r
  let rows ← model.exec ((q.arrange r).paginate r)
  let total ← if settings.disableCount then pure 0 else model.count q
  pure (.shape rows total r.start r.limit)

end ModelQuery

end StoreQuery.Document
