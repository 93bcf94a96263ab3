import StoreQuery.Proofs.Memory.Sorting
import StoreQuery.Proofs.Number.Rounding
import Mathlib.Data.Set.Function

/-!
# Whole numbers in documents

A whole number of a document is compared by the double nearest to it, with a condition and with
other documents alike.

**What operators accept and how rows are sorted follows the nearest doubles**
(`comparesBy_nearest`). So it never goes against the order of the whole numbers, and it is that
order exactly where no two of them have the same nearest double, as up to `2 ^ 53`. Beyond it,
numbers next to each other may be taken for equal (`build_neighbour`).
-/

namespace StoreQuery

namespace Memory

open Double (nearest nearest_mono nearest_of_natAbs_le)

/-- The order of two numbers in a direction. -/
def compareIn (direction : Direction) (i j : Int) : Ordering :=
  match direction with
  | .ascending => compare i j
  | .descending => compare j i

/-- Conditions on whole numbers and sorting by them follow the places that the numbers have. -/
structure ComparesBy (place : Int64 → Int) (wholes : Set Int64) : Prop where
  eq : ∀ a ∈ wholes, ∀ b ∈ wholes,
    evaluate (some (.ofInt64 a)) .eq (.one (.int b)) ↔ place a = place b
  neq : ∀ a ∈ wholes, ∀ b ∈ wholes,
    evaluate (some (.ofInt64 a)) .neq (.one (.int b)) ↔ place a ≠ place b
  gt : ∀ a ∈ wholes, ∀ b ∈ wholes,
    evaluate (some (.ofInt64 a)) .gt (.one (.int b)) ↔ place b < place a
  gte : ∀ a ∈ wholes, ∀ b ∈ wholes,
    evaluate (some (.ofInt64 a)) .gte (.one (.int b)) ↔ place b ≤ place a
  lt : ∀ a ∈ wholes, ∀ b ∈ wholes,
    evaluate (some (.ofInt64 a)) .lt (.one (.int b)) ↔ place a < place b
  lte : ∀ a ∈ wholes, ∀ b ∈ wholes,
    evaluate (some (.ofInt64 a)) .lte (.one (.int b)) ↔ place a ≤ place b
  between : ∀ a ∈ wholes, ∀ low ∈ wholes, ∀ high ∈ wholes,
    evaluate (some (.ofInt64 a)) .between (.many [.int low, .int high]) ↔
      place low ≤ place a ∧ place a ≤ place high
  isIn : ∀ a ∈ wholes, ∀ bs : List Int64, (∀ b ∈ bs, b ∈ wholes) →
    (evaluate (some (.ofInt64 a)) .isIn (.many (bs.map .int)) ↔ ∃ b ∈ bs, place a = place b)
  notIn : ∀ a ∈ wholes, ∀ bs : List Int64, (∀ b ∈ bs, b ∈ wholes) →
    (evaluate (some (.ofInt64 a)) .notIn (.many (bs.map .int)) ↔ ∀ b ∈ bs, place a ≠ place b)
  rows : ∀ (key : Order) (x y : Json), ∀ a ∈ wholes, ∀ b ∈ wholes,
    x.atPath? key.path = some (.ofInt64 a) → y.atPath? key.path = some (.ofInt64 b) →
    compareRows [key] x y = compareIn key.direction (place a) (place b)
  sorted : ∀ (key : Order) (rows : List Json) (value : Json → Int64),
    (∀ x ∈ rows, value x ∈ wholes ∧ x.atPath? key.path = some (.ofInt64 (value x))) →
    (sortRows [key] rows).Pairwise fun x y =>
      (compareIn key.direction (place (value x)) (place (value y))).isLE

section Places

variable {place : Int64 → Int} {wholes : Set Int64}

section Value

variable {value : Json} {i j : Int} {scalar : Scalar}

theorem ordered_iff (accept : Ordering → Bool)
    (h : value.compareScalar? scalar = some (compare i j)) :
    ordered accept (some value) scalar ↔ accept (compare i j) := by
  rw [ordered, Option.bind_some, h]
  rfl

theorem equals_iff (h : value.compareScalar? scalar = some (compare i j)) :
    equals (some value) scalar ↔ i = j := by
  rw [equals, h, beq_iff_eq, Option.some_inj, compare_eq_iff_eq]

end Value

theorem inList_iff {value : Json} {i : Int} {bs : List Int64}
    (h : ∀ b ∈ bs, value.compareScalar? (.int b) = some (compare i (place b))) :
    inList (bs.map .int) value ↔ ∃ b ∈ bs, i = place b := by
  rw [inList, List.any_map, List.any_eq_true]
  exact exists_congr fun b => and_congr_right fun hb => equals_iff (h b hb)

/-- A number is no array, so a list is asked for the number itself. -/
theorem someItem_ofInt64 (test : Json → Bool) (a : Int64) :
    someItem test (some (.ofInt64 a)) = test (.ofInt64 a) := by
  rw [Json.ofInt64, someItem]
  nofun

theorem compareIn_trans {direction : Direction} {i j k : Int} (h : (compareIn direction i j).isLE)
    (h' : (compareIn direction j k).isLE) : (compareIn direction i k).isLE := by
  cases direction with
  | ascending => exact Std.TransOrd.isLE_trans h h'
  | descending => exact Std.TransOrd.isLE_trans h' h

theorem compareItems_of_compareScalar? {a b : Int64} {order : Ordering}
    (h : (Json.ofInt64 a).compareScalar? (.int b) = some order) :
    compareItems (some (.ofInt64 a)) (some (.ofInt64 b)) = order := by
  rw [Json.compareScalar?, Scalar.toJson, Json.ofInt64, Json.ofInt64, Json.compare?] at h
  rw [Json.ofInt64, Json.ofInt64, compareItems, h, Option.getD_some]

theorem compareRows_ofInt64 {key : Order} {x y : Json} {a b : Int64} {i j : Int}
    (hx : x.atPath? key.path = some (.ofInt64 a)) (hy : y.atPath? key.path = some (.ofInt64 b))
    (h : (Json.ofInt64 a).compareScalar? (.int b) = some (compare i j))
    (h' : (Json.ofInt64 b).compareScalar? (.int a) = some (compare j i)) :
    compareRows [key] x y = compareIn key.direction i j := by
  rw [compareRows_singleton]
  cases hdirection : key.direction with
  | ascending =>
    rw [compareBy_ascending hdirection, hx, hy, compareItems_of_compareScalar? h, compareIn]
  | descending =>
    rw [compareBy_descending hdirection, hx, hy, compareItems_of_compareScalar? h', compareIn]

/-- Rows that are compared by numbers are sorted by these. -/
theorem sortRows_pairwise {key : Order} {rows : List Json} {number : Json → Int}
    (h : ∀ x ∈ rows, ∀ y ∈ rows,
      compareRows [key] x y = compareIn key.direction (number x) (number y)) :
    (sortRows [key] rows).Pairwise fun x y =>
      (compareIn key.direction (number x) (number y)).isLE := by
  have hle : NotGreaterPasses [key] rows := by
    intro x hx y hy z hz hxy hyz
    rw [h x hx y hy] at hxy
    rw [h y hy z hz] at hyz
    rw [h x hx z hz]
    exact compareIn_trans hxy hyz
  have hsorted := Sorting.insertion_correct [key] rows hle.tiesPass hle
  refine hsorted.inOrder.imp_of_mem fun hx hy hxy => ?_
  rwa [h _ (hsorted.perm.mem_iff.1 hx) _ (hsorted.perm.mem_iff.1 hy)] at hxy

theorem comparesBy_of_compare
    (h : ∀ a ∈ wholes, ∀ b ∈ wholes,
      (Json.ofInt64 a).compareScalar? (.int b) = some (compare (place a) (place b))) :
    ComparesBy place wholes where
  eq a ha b hb := by
    rw [evaluate]
    exact equals_iff (h a ha b hb)
  neq a ha b hb := by
    simp only [evaluate, Operand.asScalar?, Option.getD_some, Bool.not_eq_true', ← Bool.not_eq_true,
      equals_iff (h a ha b hb)]
  gt a ha b hb := by
    simp only [evaluate, Operand.asScalar?, Option.getD_some, ordered_iff _ (h a ha b hb),
      Ordering.isGT_iff_eq_gt, compare_gt_iff_gt]
  gte a ha b hb := by
    simp only [evaluate, Operand.asScalar?, Option.getD_some, ordered_iff _ (h a ha b hb),
      Std.isGE_compare]
  lt a ha b hb := by
    simp only [evaluate, Operand.asScalar?, Option.getD_some, ordered_iff _ (h a ha b hb),
      Ordering.isLT_iff_eq_lt, compare_lt_iff_lt]
  lte a ha b hb := by
    simp only [evaluate, Operand.asScalar?, Option.getD_some, ordered_iff _ (h a ha b hb),
      Std.isLE_compare]
  between a ha low hlow high hhigh := by
    simp only [evaluate, Operand.asList?, Option.getD_some, between, Bool.and_eq_true,
      ordered_iff _ (h a ha low hlow), ordered_iff _ (h a ha high hhigh), Std.isGE_compare,
      Std.isLE_compare]
  isIn a ha bs hbs := by
    simp only [evaluate, Operand.asList?, Option.getD_some, someItem_ofInt64]
    exact inList_iff fun b hb => h a ha b (hbs b hb)
  notIn a ha bs hbs := by
    simp only [evaluate, Operand.asList?, Option.getD_some, someItem_ofInt64, Bool.not_eq_true',
      ← Bool.not_eq_true, inList_iff fun b hb => h a ha b (hbs b hb)]
    push Not
    rfl
  rows key x y a ha b hb hx hy := compareRows_ofInt64 hx hy (h a ha b hb) (h b hb a ha)
  sorted key rows value hrows := by
    refine sortRows_pairwise fun x hx y hy => ?_
    obtain ⟨hx, hx'⟩ := hrows x hx
    obtain ⟨hy, hy'⟩ := hrows y hy
    exact compareRows_ofInt64 hx' hy' (h _ hx _ hy) (h _ hy _ hx)

end Places

/-- **A whole number is compared by the double nearest to it.** -/
theorem compareScalar?_ofInt64 (a b : Int64) : (Json.ofInt64 a).compareScalar? (.int b) =
    some (compare (nearest a.toInt) (nearest b.toInt)) := by
  have hsmall : ∀ i : Int64, i.toInt.natAbs ≤ 2 ^ 64 := fun i => by
    have hlow := i.le_toInt
    have hhigh := i.toInt_lt
    omega
  rw [Json.compareScalar?, Scalar.toJson, Json.ofInt64, Json.ofInt64, Json.compare?]
  exact Double.compare?_ofInt (hsmall a) (hsmall b)

/-- Two numbers with different nearest doubles are in the order of these. -/
theorem nearest_le_iff {a b : Int64} (hapart : nearest a.toInt = nearest b.toInt → a = b) :
    nearest a.toInt ≤ nearest b.toInt ↔ a.toInt ≤ b.toInt := by
  refine ⟨fun h => ?_, fun h => nearest_mono h⟩
  by_contra hlt
  have hge := nearest_mono (Int.le_of_lt (Int.not_le.1 hlt))
  exact hlt (by rw [hapart (le_antisymm h hge)])

/-- **Whole numbers compare by their nearest doubles**: by themselves where no two share theirs. -/
theorem comparesBy_nearest (wholes : Set Int64) :
    ComparesBy (fun a => nearest a.toInt) Set.univ ∧
      (ComparesBy Int64.toInt wholes ↔ wholes.InjOn fun a => nearest a.toInt) ∧
      (∀ i j, i ≤ j → nearest i ≤ nearest j) ∧ ∀ i : Int, i.natAbs ≤ 2 ^ 53 → nearest i = i := by
  have hall : ∀ a ∈ Set.univ, ∀ b ∈ Set.univ, (Json.ofInt64 a).compareScalar? (.int b) =
      some (compare (nearest a.toInt) (nearest b.toInt)) :=
    fun a _ b _ => compareScalar?_ofInt64 a b
  have hnearest : ComparesBy (fun a => nearest a.toInt) Set.univ := comparesBy_of_compare hall
  refine ⟨hnearest, ⟨fun h a ha b hb hab => ?_, fun hinj => ?_⟩, fun i j => nearest_mono,
    fun i => nearest_of_natAbs_le⟩
  · exact Int64.toInt_inj.1 ((h.eq a ha b hb).1 ((hnearest.eq a trivial b trivial).2 hab))
  · refine comparesBy_of_compare fun a ha b hb => ?_
    rw [compareScalar?_ofInt64, compare_congr (nearest_le_iff (hinj ha hb))
      (nearest_le_iff (hinj hb ha))]

/-- A row with the first number that has a neighbour with the same nearest double. -/
def large : Json := .obj [("id", .ofInt64 9007199254740992)]

/-- Asks for the row of that neighbour. -/
def neighbour : Request where
  condition := .leaf ⟨⟨["id"]⟩, .eq, .one (.int 9007199254740993)⟩

/-- **Two large numbers next to each other are taken for equal.** -/
theorem build_neighbour :
    build [] [large] neighbour = .ok [large] ∧ ¬ ComparesBy Int64.toInt Set.univ := by
  refine ⟨?_, fun h => ?_⟩
  · let test : Predicate := Comparison.holds ⟨⟨["id"]⟩, .eq, .one (.int 9007199254740993)⟩
    have htest : test large = true := by decide +kernel
    have hfilter : [large].filter test = [large] := List.filter_cons_of_pos htest
    have hmatching : matching [large] neighbour = .ok (sortRows [] ([large].filter test)) := rfl
    rw [build, hmatching, hfilter]
    rfl
  have heq := (h.eq 9007199254740992 trivial 9007199254740993 trivial).1 (by decide +kernel)
  exact absurd heq (by decide)

end Memory

end StoreQuery
