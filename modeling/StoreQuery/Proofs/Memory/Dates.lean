import StoreQuery.Proofs.Memory.Wholes
import StoreQuery.Proofs.Time.Written

/-!
# Dates in documents

JSON has no dates, so a document has them as texts, and a condition with a date compares its text
with them, character by character.

**This is the order in time** (`dates_chronological`), for dates in years of four digits that are
written in the offset form: a document is accepted by an operator exactly if its instant stands to
that of the condition as the operator says. Fractions of a second may be written with more digits
than necessary as well, but only where the instants differ.
-/

namespace StoreQuery.Memory

open Timestamp (Exact)

variable {document : Json} {path : Path} {t u : Timestamp}

/-- Whether a document passes the test that compares what stands at a path. -/
def passes (document : Json) (path : Path) (op : Operator) (value : Operand) : Except Error Bool :=
  (predicate (.leaf ⟨path, op, value⟩)).map fun test => test document

/-- Conditions on the date of a document follow the order of instants. -/
structure Chronological (document : Json) (path : Path) (t : Timestamp) : Prop where
  order : ∀ u : Timestamp, u.Ordinary →
    Json.compareScalar? (.str t.offsetText) (.date u) = some (compare t.instant u.instant)
  eq : ∀ u : Timestamp, u.Ordinary →
    passes document path .eq (.one (.date u)) = .ok (decide (t.instant = u.instant))
  neq : ∀ u : Timestamp, u.Ordinary →
    passes document path .neq (.one (.date u)) = .ok (decide (t.instant ≠ u.instant))
  gt : ∀ u : Timestamp, u.Ordinary →
    passes document path .gt (.one (.date u)) = .ok (decide (u.instant < t.instant))
  gte : ∀ u : Timestamp, u.Ordinary →
    passes document path .gte (.one (.date u)) = .ok (decide (u.instant ≤ t.instant))
  lt : ∀ u : Timestamp, u.Ordinary →
    passes document path .lt (.one (.date u)) = .ok (decide (t.instant < u.instant))
  lte : ∀ u : Timestamp, u.Ordinary →
    passes document path .lte (.one (.date u)) = .ok (decide (t.instant ≤ u.instant))
  between : ∀ low high : Timestamp, low.Ordinary → high.Ordinary →
    passes document path .between (.many [.date low, .date high]) =
      .ok (decide (low.instant ≤ t.instant ∧ t.instant ≤ high.instant))
  /-- For two different instants the number of digits in the fractions does not matter, on either
  side. The same instant in two forms is two texts. -/
  anyDigits : ∀ (u : Timestamp) (digits digits' : Nat), u.Ordinary → t ≠ u →
    Exact digits t.nano → Exact digits' u.nano →
    Json.compare? (.str (t.textWith digits)) (.str (u.textWith digits')) =
      some (compare t.instant u.instant)

theorem passes_eq {op : Operator} {value : Operand} {item : Json} {p : Prop} [Decidable p]
    (hvalid : op.validate value = .ok ()) (hitem : document.atPath? path = some item)
    (h : evaluate (some item) op value ↔ p) : passes document path op value = .ok (decide p) := by
  have hleaf : ∀ c ∈ Condition.leaves (.leaf ⟨path, op, value⟩), c.validate = .ok () := by
    intro c hc
    obtain rfl := List.mem_singleton.1 hc
    exact hvalid
  obtain ⟨test, htest, hmeans⟩ := predicate_ok hleaf
  have hholds : test document = evaluate (some item) op value := by
    rw [hmeans, ← hitem]
    rfl
  rw [passes, htest, Except.map, hholds]
  congr 1
  rw [Bool.eq_iff_iff, h, decide_eq_true_eq]

/-- **A written date is compared with a condition by the order of the instants.** -/
theorem compareScalar?_date (ht : t.Ordinary) (hu : u.Ordinary) :
    Json.compareScalar? (.str t.offsetText) (.date u) = some (compare t.instant u.instant) := by
  rw [Json.compareScalar?, Scalar.toJson, Json.compare?, t.offsetText_eq, u.offsetText_eq,
    Timestamp.compare_textWith ht hu (Timestamp.exact_fewestDigits _)
      (Timestamp.exact_fewestDigits _) fun h => by rw [h]]

/-- **Conditions with dates follow the order in time.** -/
theorem dates_chronological (ht : t.Ordinary)
    (hdate : document.atPath? path = some (.str t.offsetText)) : Chronological document path t where
  order u hu := compareScalar?_date ht hu
  eq u hu := by
    refine passes_eq rfl hdate ?_
    rw [evaluate]
    exact equals_iff (compareScalar?_date ht hu)
  neq u hu := by
    refine passes_eq rfl hdate ?_
    simp only [evaluate, Operand.asScalar?, Option.getD_some, Bool.not_eq_true', ← Bool.not_eq_true,
      equals_iff (compareScalar?_date ht hu), ne_eq]
  gt u hu := by
    refine passes_eq rfl hdate ?_
    simp only [evaluate, Operand.asScalar?, Option.getD_some,
      ordered_iff _ (compareScalar?_date ht hu), Ordering.isGT_iff_eq_gt, compare_gt_iff_gt]
  gte u hu := by
    refine passes_eq rfl hdate ?_
    simp only [evaluate, Operand.asScalar?, Option.getD_some,
      ordered_iff _ (compareScalar?_date ht hu), Std.isGE_compare]
  lt u hu := by
    refine passes_eq rfl hdate ?_
    simp only [evaluate, Operand.asScalar?, Option.getD_some,
      ordered_iff _ (compareScalar?_date ht hu), Ordering.isLT_iff_eq_lt, compare_lt_iff_lt]
  lte u hu := by
    refine passes_eq rfl hdate ?_
    simp only [evaluate, Operand.asScalar?, Option.getD_some,
      ordered_iff _ (compareScalar?_date ht hu), Std.isLE_compare]
  between low high hlow hhigh := by
    refine passes_eq rfl hdate ?_
    simp only [evaluate, Operand.asList?, Option.getD_some, between, Bool.and_eq_true,
      ordered_iff _ (compareScalar?_date ht hlow), ordered_iff _ (compareScalar?_date ht hhigh),
      Std.isGE_compare, Std.isLE_compare]
  anyDigits u digits digits' hu hne hdigits hdigits' := by
    rw [Json.compare?, Timestamp.compare_textWith ht hu hdigits hdigits' fun h => absurd h hne]

/-- In a leap second. -/
def late : Timestamp := ⟨2016, 12, 31, 23, 59, 60, 500000000⟩

/-- The start of the next year. -/
def newYear : Timestamp := ⟨2017, 1, 1, 0, 0, 0, 0⟩

theorem dates_chronological_leapSecond :
    late.Ordinary ∧ late.offsetText = "2016-12-31T23:59:60.500+00:00" ∧
      passes (.obj [("at", .str late.offsetText)]) ⟨["at"]⟩ .lt (.one (.date newYear)) =
        .ok true := by
  have hlate : late.Ordinary := ⟨by decide, by decide, by decide⟩
  have hnew : newYear.Ordinary := ⟨by decide, by decide, by decide⟩
  have hdate : (Json.obj [("at", .str late.offsetText)]).atPath? ⟨["at"]⟩ =
      some (.str late.offsetText) := rfl
  refine ⟨hlate, by decide +kernel, ?_⟩
  rw [(dates_chronological hlate hdate).lt newYear hnew]
  decide +kernel

end StoreQuery.Memory
