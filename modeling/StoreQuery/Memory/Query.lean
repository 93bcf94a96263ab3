import StoreQuery.Memory.Predicate
import StoreQuery.Request.Page

/-!
# Requests on rows in memory

A request on a list of documents keeps those that its condition accepts, sorts them, takes the
part that offset and limit name, and projects each to the selected properties. Sorting inserts one
row after the other and is stable. Values of different types are ties, so the comparison need not
be transitive, and which rows a row is compared with matters. A projection starts from a given
object and shows null for a property that a row does not have.
-/

namespace StoreQuery.Memory

/-! ## Sorting -/

/-- The order of two values under a sort key. Only numbers, texts and truth values are told
apart, each among themselves. -/
def compareItems : Option Json → Option Json → Ordering
  | some (.num a), some (.num b) => (a.toDouble.compare? b.toDouble).getD .eq
  | some (.str a), some (.str b) => compare a b
  | some (.bool a), some (.bool b) => compare a b
  | _, _ => .eq

/-- The order of two rows under one sort key. -/
def compareBy (key : Order) (a b : Json) : Ordering :=
  let order := compareItems (a.atPath? key.path) (b.atPath? key.path)
  match key.direction with
  | .ascending => order
  | .descending => order.swap

/-- The order of two rows: that of the first sort key that tells them apart. -/
def compareRows (keys : List Order) (a b : Json) : Ordering :=
  keys.foldr (fun key later => (compareBy key a b).then later) .eq

/-- Puts a row into a list that runs from the last row to the first: behind the rows at its head
that it comes before. -/
def insertRow (keys : List Order) (row : Json) : List Json → List Json
  | [] => [row]
  | last :: rest =>
    if compareRows keys row last = .lt then last :: insertRow keys row rest
    else row :: last :: rest

/-- Rows in the order of the sort keys. Each row in turn is put in from the end, and moves up past
the rows that it comes before until it meets one that it does not. -/
def sortRows (keys : List Order) (rows : List Json) : List Json :=
  (rows.foldl (fun sorted row => insertRow keys row sorted) []).reverse

/-! ## Parts and projections -/

/-- The rows from an offset on, at most as many as the limit. -/
def slice (offset : UInt64) (limit : Option UInt64) (rows : List Json) : List Json :=
  let rest := rows.drop offset.toNat
  match limit with
  | some limit => rest.take limit.toNat
  | none => rest

/-- The object that shows the selected properties of a row. -/
def project (start : Json.Members) (select : List Path) (row : Json) : Json :=
  .obj <| select.foldl
    (fun members path => Json.putAt path.segments ((row.atPath? path).getD .null) members) start

/-- The projections of rows; without a selection the rows themselves. -/
def projectRows (start : Json.Members) (select : List Path) (rows : List Json) : List Json :=
  if select.isEmpty then rows else rows.map (project start select)

/-! ## Requests -/

/-- The rows that a request accepts, in its order. -/
def matching (rows : List Json) (r : Request) : Except Error (List Json) :=
  (predicate r.condition).map fun test => sortRows r.order (rows.filter test)

/-- The rows that a request asks for; projections start from the given object. -/
def build (start : Json.Members) (rows : List Json) (r : Request) : Except Error (List Json) :=
  (matching rows r).map fun rows => projectRows start r.select (slice r.start r.limit rows)

/-- The first row that a request accepts. -/
def getOne (start : Json.Members) (rows : List Json) (r : Request) :
    Except Error (Option Json) :=
  (matching rows r).map fun rows => (projectRows start r.select (rows.take 1)).head?

/-- The page of rows that a request asks for. -/
def getMany (start : Json.Members) (rows : List Json) (r : Request) :
    Except Error (Page Json) :=
  (matching rows r).map fun rows =>
    .shape (projectRows start r.select (slice r.start r.limit rows))
      (UInt64.ofNat rows.length) r.start r.limit

end StoreQuery.Memory
