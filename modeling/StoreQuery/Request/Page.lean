import StoreQuery.Request.Basic

/-!
# Pages

A page of a result holds rows together with the counts that paging controls show. Without a limit
one page holds everything, so its size is the total; pages of size zero are numbered 1 of 0.

Offsets and counts have 64 bits. The offset of a far page stops at the largest number there is.
-/

namespace StoreQuery

/-- The largest number of 64 bits. -/
def maxWord : UInt64 := UInt64.ofNat (UInt64.size - 1)

/-- The product of two numbers, or the largest number if it does not fit. -/
def timesCapped (a b : UInt64) : UInt64 := UInt64.ofNat (min (a.toNat * b.toNat) (UInt64.size - 1))

/-- The offset of the first row: the given one, or else that of the page. Pages count from 0. -/
def effectiveOffset (offset limit page : Option UInt64) : UInt64 :=
  match offset, limit, page with
  | some offset, _, _ => offset
  | none, some limit, some page => timesCapped limit page
  | _, _, _ => 0

/-- The offset that a request asks for. -/
def Request.start (r : Request) : UInt64 := effectiveOffset r.offset r.limit r.page

/-- A page of rows with its counts. -/
structure Page (α : Type) where
  rows : List α
  count : UInt64
  total : UInt64
  number : UInt64
  pages : UInt64

namespace Page

variable {α β : Type}

/-- The number of the page that holds the row at an offset, counted from 1. -/
def numberOf (size offset : UInt64) : UInt64 := if size = 0 then 1 else offset / size + 1

/-- How many pages hold a number of rows. -/
def pagesOf (size total : UInt64) : UInt64 :=
  if size = 0 then 0
  else if total % size = 0 then total / size else total / size + 1

/-- The page of rows that was taken at an offset from a total. -/
def shape (rows : List α) (total offset : UInt64) (limit : Option UInt64) : Page α :=
  let size := limit.getD total
  { rows, total
    count := UInt64.ofNat rows.length
    number := numberOf size offset
    pages := pagesOf size total }

/-- Changes the rows and keeps the counts. -/
def map (f : α → β) (p : Page α) : Page β := { p with rows := p.rows.map f }

/-- The JSON value of a page. -/
def encode (p : Page Json) : Json :=
  .obj [("data", .arr p.rows), ("count", .ofUInt64 p.count), ("total", .ofUInt64 p.total),
    ("page", .ofUInt64 p.number), ("pageCount", .ofUInt64 p.pages)]

end Page

end StoreQuery
