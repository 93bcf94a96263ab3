import StoreQuery.Memory.Query
import StoreQuery.Proofs.Success
import Mathlib.Algebra.Order.Floor.Div
import Mathlib.Data.List.Basic

/-!
# The pages of a result

A result is cut into pages of one size, and the last page may be short. Page `p` starts at the row
`size * p`, so the pages one after the other are the result (`flatMap_pages`).

**Requests for the pages of a result give back the result** (`getMany_pages`): every row is on
one page, in its place. Every page reports how many rows and how many pages there are. A page behind
the last one is empty, however far it is: its offset stops at the largest number there is, and a
result has fewer rows than that.

Nothing here depends on how rows are sorted, as long as no row is lost or added. So the statements
are about any way of sorting (`Sorting`); the one that the store uses is `Sorting.insertion`.
-/

namespace StoreQuery

/-! ## Pages of a list -/

section Lists

variable {α : Type} {size total : Nat}

/-- The parts of a size, one after the other, are what they reach to. -/
theorem flatMap_parts (xs : List α) (size count : Nat) :
    ((List.range count).flatMap fun p => (xs.drop (size * p)).take size) =
      xs.take (size * count) := by
  induction count with
  | zero => rfl
  | succ count ih =>
    rw [List.range_succ, List.flatMap_append, ih, List.flatMap_singleton, Nat.mul_succ,
      List.take_add]

/-- **The pages of a list, one after the other, are the list.** -/
theorem flatMap_pages (xs : List α) (hsize : 0 < size) :
    ((List.range (xs.length ⌈/⌉ size)).flatMap fun p => (xs.drop (size * p)).take size) = xs := by
  have hall : xs.length ≤ size * (xs.length ⌈/⌉ size) := le_smul_ceilDiv hsize
  rw [flatMap_parts, List.take_of_length_le hall]

/-- The pages that there are start before the end. -/
theorem mul_lt_of_lt_ceilDiv (hsize : 0 < size) {p : Nat} (h : p < total ⌈/⌉ size) :
    size * p < total :=
  lt_of_not_ge fun hge => absurd ((ceilDiv_le_iff_le_mul hsize).2 hge) (by omega)

theorem ceilDiv_eq (hsize : 0 < size) (total : Nat) : total ⌈/⌉ size =
    if total % size = 0 then total / size else total / size + 1 := by
  have hdiv := Nat.div_add_mod total size
  have hlt := Nat.mod_lt total hsize
  have hsplit : total + size - 1 = total % size + size - 1 + size * (total / size) := by omega
  rw [Nat.ceilDiv_eq_add_pred_div, hsplit, Nat.add_mul_div_left _ _ hsize]
  by_cases hrest : total % size = 0
  · rw [if_pos hrest, hrest, Nat.zero_add, Nat.div_eq_of_lt (by omega), Nat.zero_add]
  · have hone : (total % size + size - 1) / size = 1 := Nat.div_eq_of_lt_le (by omega) (by omega)
    rw [if_neg hrest, hone, Nat.add_comm]

end Lists

/-! ## Numbers of 64 bits -/

theorem toNat_timesCapped {a b : UInt64} (h : a.toNat * b.toNat < UInt64.size) :
    (timesCapped a b).toNat = a.toNat * b.toNat := by
  rw [timesCapped, Nat.min_eq_left (by omega), UInt64.toNat_ofNat_of_lt' h]

/-- A product is capped at the largest number. -/
theorem le_toNat_timesCapped {a b : UInt64} {n : Nat} (h : n ≤ a.toNat * b.toNat)
    (hn : n < UInt64.size) : n ≤ (timesCapped a b).toNat := by
  have hcapped : min (a.toNat * b.toNat) (UInt64.size - 1) < UInt64.size := by
    have hpos : 0 < UInt64.size := by decide
    omega
  rw [timesCapped, UInt64.toNat_ofNat_of_lt' hcapped]
  omega

namespace Page

variable {size : UInt64}

theorem toNat_pagesOf (hsize : 0 < size.toNat) (total : UInt64) :
    (pagesOf size total).toNat = total.toNat ⌈/⌉ size.toNat := by
  have hne : size ≠ 0 := by
    rintro rfl
    exact Nat.lt_irrefl 0 hsize
  rw [pagesOf, if_neg hne, ceilDiv_eq hsize]
  have hmod : total % size = 0 ↔ total.toNat % size.toNat = 0 := by
    rw [← UInt64.toNat_inj, UInt64.toNat_mod]
    rfl
  simp only [hmod]
  split
  · exact UInt64.toNat_div ..
  · rename_i hrest
    have hdiv := Nat.div_add_mod total.toNat size.toNat
    have hle := Nat.le_mul_of_pos_left (total.toNat / size.toNat) hsize
    have hfits : total.toNat / size.toNat + 1 < 2 ^ 64 := by
      have htotal := total.toNat_lt
      omega
    rw [UInt64.toNat_add, UInt64.toNat_div]
    exact Nat.mod_eq_of_lt hfits

/-- The number of a page is that of the rows before it, counted in pages, and one more; what does
not fit is cut off. -/
theorem toNat_numberOf {offset : UInt64} (hsize : 0 < size.toNat) :
    (numberOf size offset).toNat = (offset.toNat / size.toNat + 1) % UInt64.size := by
  have hne : size ≠ 0 := by
    rintro rfl
    exact Nat.lt_irrefl 0 hsize
  rw [numberOf, if_neg hne, UInt64.toNat_add, UInt64.toNat_div]
  rfl

end Page

namespace Memory

/-! ## Sorting in any way -/

theorem insertRow_perm (keys : List Order) (row : Json) (rows : List Json) :
    (insertRow keys row rows).Perm (row :: rows) := by
  induction rows with
  | nil => exact .refl _
  | cons last rest ih =>
    rw [insertRow]
    split
    · exact (ih.cons last).trans (.swap row last rest)
    · exact .refl _

theorem sortRows_perm (keys : List Order) (rows : List Json) : (sortRows keys rows).Perm rows := by
  have hinserted : ∀ sorted, (rows.foldl (fun sorted row => insertRow keys row sorted) sorted).Perm
      (rows ++ sorted) := by
    induction rows with
    | nil => exact fun sorted => .refl _
    | cons row rows ih =>
      intro sorted
      have hrow := (insertRow_perm keys row sorted).append_left rows
      exact ((ih _).trans hrow).trans List.perm_middle
  have hall := hinserted []
  rw [List.append_nil] at hall
  exact (List.reverse_perm _).trans hall

theorem projectRows_eq_map (start : Json.Members) (select : List Path) (rows : List Json) :
    projectRows start select rows =
      rows.map (if select.isEmpty then id else project start select) := by
  rw [projectRows]
  split
  · rw [List.map_id]
  · rfl

/-- A way of sorting rows: the same rows come out whenever the same rows go in, and none is lost or
added. -/
structure Sorting where
  sort : List Order → List Json → List Json
  perm : ∀ keys rows, (sort keys rows).Perm rows

namespace Sorting

/-- The way of sorting that the store uses. -/
def insertion : Sorting := ⟨sortRows, sortRows_perm⟩

variable (s : Sorting)

/-- The rows that a request accepts, in its order. -/
def matching (rows : List Json) (r : Request) : Except Error (List Json) :=
  (predicate r.condition).map fun test => s.sort r.order (rows.filter test)

/-- The rows that a request asks for. -/
def build (start : Json.Members) (rows : List Json) (r : Request) : Except Error (List Json) :=
  (s.matching rows r).map fun rows => projectRows start r.select (slice r.start r.limit rows)

/-- The first row that a request accepts. -/
def getOne (start : Json.Members) (rows : List Json) (r : Request) : Except Error (Option Json) :=
  (s.matching rows r).map fun rows => (projectRows start r.select (rows.take 1)).head?

/-- The page of rows that a request asks for. -/
def getMany (start : Json.Members) (rows : List Json) (r : Request) : Except Error (Page Json) :=
  (s.matching rows r).map fun rows =>
    .shape (projectRows start r.select (slice r.start r.limit rows))
      (UInt64.ofNat rows.length) r.start r.limit

theorem build_insertion : insertion.build = Memory.build := rfl

theorem getOne_insertion : insertion.getOne = Memory.getOne := rfl

theorem getMany_insertion : insertion.getMany = Memory.getMany := rfl

variable {s} {start : Json.Members} {rows : List Json} {r : Request} {test : Predicate}

/-- The rows that a request accepts are those that pass its test, in some order. -/
theorem matching_eq (htest : predicate r.condition = .ok test) :
    s.matching rows r = .ok (s.sort r.order (rows.filter test)) := by
  rw [matching, htest]
  rfl

theorem length_sort_filter (keys : List Order) :
    (s.sort keys (rows.filter test)).length = rows.countP test := by
  rw [(s.perm keys _).length_eq, List.countP_eq_length_filter]

theorem build_eq {sorted : List Json} (h : s.matching rows r = .ok sorted) :
    s.build start rows r =
      .ok (projectRows start r.select (slice r.start r.limit sorted)) := by
  rw [build, h]
  rfl

theorem getOne_eq {sorted : List Json} (h : s.matching rows r = .ok sorted) :
    s.getOne start rows r = .ok (projectRows start r.select sorted).head? := by
  rw [getOne, h]
  show Except.ok (projectRows start r.select (sorted.take 1)).head? = _
  rw [projectRows_eq_map, projectRows_eq_map, List.map_take, List.head?_take,
    if_neg Nat.one_ne_zero]

end Sorting

/-! ## Requests for pages -/

end Memory

namespace Request

/-- The request for a page of a size; pages count from 0. -/
def paged (r : Request) (size page : UInt64) : Request :=
  { r with limit := some size, page := some page }

/-- The request for the whole result. -/
def whole (r : Request) : Request := { r with limit := none, page := none }

variable {r : Request} {size : UInt64}

theorem start_paged (hoffset : r.offset = none) (page : UInt64) :
    (r.paged size page).start = timesCapped size page := by
  rw [start, paged, hoffset]
  rfl

theorem start_whole (hoffset : r.offset = none) : r.whole.start = 0 := by
  rw [start, whole, hoffset]
  rfl

/-- A page that is there starts at its own row. -/
theorem toNat_start_paged {total p : Nat} (hoffset : r.offset = none) (hsize : 0 < size.toNat)
    (hfits : total < UInt64.size) (hp : p < total ⌈/⌉ size.toNat) :
    (r.paged size (.ofNat p)).start.toNat = size.toNat * p := by
  have hstart := mul_lt_of_lt_ceilDiv hsize hp
  have hle := Nat.le_mul_of_pos_left p hsize
  have hpage : (UInt64.ofNat p).toNat = p := UInt64.toNat_ofNat_of_lt' (by omega)
  rw [start_paged hoffset, toNat_timesCapped, hpage]
  rw [hpage]
  omega

theorem le_toNat_start_paged {total : Nat} {page : UInt64} (hoffset : r.offset = none)
    (hsize : 0 < size.toNat) (hfits : total < UInt64.size)
    (hpage : total ⌈/⌉ size.toNat ≤ page.toNat) : total ≤ (r.paged size page).start.toNat := by
  rw [start_paged hoffset]
  exact le_toNat_timesCapped ((ceilDiv_le_iff_le_mul hsize).1 hpage) hfits

end Request

namespace Memory

variable {start : Json.Members} {rows : List Json} {r : Request} {test : Predicate} {size : UInt64}

/-- A page of sorted rows, by its place among the pages. -/
def pageOf (start : Json.Members) (r : Request) (size : UInt64) (sorted : List Json) (p : Nat) :
    Page Json :=
  let offset := (r.paged size (.ofNat p)).start
  .shape (projectRows start r.select (slice offset (some size) sorted)) (.ofNat sorted.length)
    offset (some size)

section Pages

variable {sorted : List Json} (hoffset : r.offset = none) (hsize : 0 < size.toNat)
  (hfits : sorted.length < UInt64.size)

include hoffset hsize hfits

theorem counts_pageOf {p : Nat} (hp : p < sorted.length ⌈/⌉ size.toNat) :
    (pageOf start r size sorted p).total.toNat = sorted.length ∧
      (pageOf start r size sorted p).pages.toNat = sorted.length ⌈/⌉ size.toNat ∧
      (pageOf start r size sorted p).number.toNat = p + 1 := by
  have htotal : (UInt64.ofNat sorted.length).toNat = sorted.length :=
    UInt64.toNat_ofNat_of_lt' hfits
  have hstart := Request.toNat_start_paged hoffset hsize hfits hp
  have hbefore := mul_lt_of_lt_ceilDiv hsize hp
  have hle := Nat.le_mul_of_pos_left p hsize
  have hpages := Page.toNat_pagesOf hsize (.ofNat sorted.length)
  rw [htotal] at hpages
  refine ⟨htotal, hpages, ?_⟩
  show (Page.numberOf size (r.paged size (.ofNat p)).start).toNat = p + 1
  rw [Page.toNat_numberOf hsize, hstart, Nat.mul_div_cancel_left p hsize]
  exact Nat.mod_eq_of_lt (by omega)

theorem flatMap_pageOf : ((List.range (sorted.length ⌈/⌉ size.toNat)).flatMap fun p =>
    (pageOf start r size sorted p).rows) = projectRows start r.select sorted := by
  rw [projectRows_eq_map]
  conv_rhs => rw [← flatMap_pages sorted hsize, List.map_flatMap]
  refine List.flatMap_congr fun p hp => ?_
  have hstart := Request.toNat_start_paged hoffset hsize hfits (List.mem_range.1 hp)
  show projectRows start r.select (slice (r.paged size (.ofNat p)).start (some size) sorted) = _
  rw [projectRows_eq_map, slice, hstart]

theorem slice_paged_eq_nil {page : UInt64} (hpage : sorted.length ⌈/⌉ size.toNat ≤ page.toNat) :
    slice (r.paged size page).start (some size) sorted = [] := by
  have hbehind := Request.le_toNat_start_paged hoffset hsize hfits hpage
  rw [slice, List.drop_of_length_le hbehind]
  exact List.take_nil

end Pages

/-- **Requests for the pages of a result give back the result.** -/
theorem getMany_pages (s : Sorting) (start : Json.Members) (rows : List Json)
    (hoffset : r.offset = none) (htest : predicate r.condition = .ok test) (hsize : 1 ≤ size)
    (hfits : rows.countP test < UInt64.size) :
    ∃ all, s.build start rows r.whole = .ok all ∧
      (∃ page : Nat → Page Json,
        (∀ p < rows.countP test ⌈/⌉ size.toNat,
          s.getMany start rows (r.paged size (.ofNat p)) = .ok (page p) ∧
            (page p).total.toNat = rows.countP test ∧
            (page p).pages.toNat = rows.countP test ⌈/⌉ size.toNat ∧
            (page p).number.toNat = p + 1) ∧
          ((List.range (rows.countP test ⌈/⌉ size.toNat)).flatMap fun p => (page p).rows) = all) ∧
      (∀ page : UInt64, rows.countP test ⌈/⌉ size.toNat ≤ page.toNat →
        s.build start rows (r.paged size page) = .ok []) ∧
      ∀ limit page, s.getOne start rows { r with limit, page } = .ok all.head? := by
  have hpos : 0 < size.toNat := UInt64.le_iff_toNat_le.1 hsize
  obtain ⟨sorted, hsorted⟩ : ∃ sorted, s.sort r.order (rows.filter test) = sorted := ⟨_, rfl⟩
  have hlength : sorted.length = rows.countP test := by
    rw [← hsorted]
    exact Sorting.length_sort_filter r.order
  -- Limit and page have no part in which rows there are and in which order.
  have hmatching : ∀ r' : Request, r'.condition = r.condition → r'.order = r.order →
      s.matching rows r' = .ok sorted := by
    intro r' hcondition horder
    rw [← hsorted, ← horder]
    exact Sorting.matching_eq (hcondition ▸ htest)
  rw [← hlength] at hfits ⊢
  refine ⟨projectRows start r.select sorted, ?whole, ⟨pageOf start r size sorted, ?pages, ?rows⟩,
    ?behind, ?first⟩
  case whole =>
    rw [Sorting.build_eq (hmatching r.whole rfl rfl), Request.start_whole hoffset]
    rfl
  case pages =>
    intro p hp
    refine ⟨?_, counts_pageOf hoffset hpos hfits hp⟩
    rw [Sorting.getMany, hmatching (r.paged size (.ofNat p)) rfl rfl]
    rfl
  case rows => exact flatMap_pageOf hoffset hpos hfits
  case behind =>
    intro page hpage
    have hnone := slice_paged_eq_nil hoffset hpos hfits hpage
    rw [Sorting.build_eq (hmatching (r.paged size page) rfl rfl)]
    show Except.ok (projectRows start r.select (slice _ (some size) sorted)) = _
    rw [hnone, projectRows_eq_map]
    rfl
  case first =>
    intro limit page
    exact Sorting.getOne_eq (hmatching { r with limit, page } rfl rfl)

/-- Rows with numbers, in no order. -/
def numbered : List Json := [3, 1, 5, 2, 4].map fun n => .obj [("id", .ofInt64 n)]

/-- Asks for the rows with a number above 1, in order. -/
def aboveOne : Request where
  order := [⟨⟨["id"]⟩, .ascending⟩]
  condition := .leaf ⟨⟨["id"]⟩, .gt, .one (.int 1)⟩

/-- Four rows are two pages of three rows; the start of the last page asked for does not fit into 64
bits. -/
theorem getMany_pages_far :
    aboveOne.offset = none ∧ (1 : UInt64) ≤ 3 ∧ ∃ test, predicate aboveOne.condition = .ok test ∧
      numbered.countP test = 4 ∧ 4 < UInt64.size ∧
      ∃ all, build [] numbered aboveOne.whole = .ok all ∧
        (∃ page : Nat → Page Json,
          (∀ p < 2, getMany [] numbered (aboveOne.paged 3 (.ofNat p)) = .ok (page p) ∧
            (page p).total.toNat = 4 ∧ (page p).pages.toNat = 2 ∧ (page p).number.toNat = p + 1) ∧
          (page 0).rows ++ (page 1).rows = all) ∧
        build [] numbered (aboveOne.paged 3 9223372036854775808) = .ok [] ∧
        getOne [] numbered (aboveOne.paged 3 1) = .ok all.head? := by
  have htest : predicate aboveOne.condition =
      .ok (Comparison.holds ⟨⟨["id"]⟩, .gt, .one (.int 1)⟩) := rfl
  have htotal : numbered.countP (Comparison.holds ⟨⟨["id"]⟩, .gt, .one (.int 1)⟩) = 4 := by
    decide +kernel
  have hfits : 4 < UInt64.size := by decide
  obtain ⟨all, hall, ⟨page, hpages, hrows⟩, hbehind, hfirst⟩ :=
    getMany_pages .insertion [] numbered rfl htest (by decide : (1 : UInt64) ≤ 3)
      (htotal.symm ▸ hfits)
  rw [htotal] at hpages hrows hbehind
  refine ⟨rfl, by decide, _, htest, htotal, hfits, all, hall, ⟨page, hpages, ?_⟩,
    hbehind 9223372036854775808 (by decide), hfirst _ _⟩
  have htwo : List.range (4 ⌈/⌉ (3 : UInt64).toNat) = [0, 1] := rfl
  rw [htwo] at hrows
  simpa using hrows

end Memory

end StoreQuery
