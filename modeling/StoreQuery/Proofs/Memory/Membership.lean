import StoreQuery.Proofs.Memory.Reading

/-!
# Membership and equality

An operator with a list asks of a value that is no array what the operator with one scalar asks for
each scalar of the list, but for two differences:

* A missing value equals null, but is in no list, one with null included.
* A list compared without regard to case looks at its texts only, while a single scalar is compared
  by its text, whatever it is.

**Membership is equality with some scalar of the list, but for these two** (`membership`). So the
two agree exactly if it is not a missing value and a list with null, and, where case is ignored, if
no scalar that is no text is the only one to equal the value. Operators with `not` are the exact
negations of those without, and have the same two differences.
-/

namespace StoreQuery.Memory

variable {item : Option Json} {scalars : List Scalar} {test : Json → Bool}

/-- Whether a value passes an operator with a list is whether it passes another one with some scalar
of the list. -/
def SomeEach (item : Option Json) (listed single : Operator) (scalars : List Scalar) : Prop :=
  evaluate item listed (.many scalars) = true ↔ ∃ s ∈ scalars, evaluate item single (.one s) = true

/-- Whether a value passes an operator with a list is whether it passes another one with every
scalar of the list. -/
def AllEach (item : Option Json) (listed single : Operator) (scalars : List Scalar) : Prop :=
  evaluate item listed (.many scalars) = true ↔ ∀ s ∈ scalars, evaluate item single (.one s) = true

/-- A missing value, and a list in which null stands. -/
def NullMissed (item : Option Json) (scalars : List Scalar) : Prop := item = none ∧ .null ∈ scalars

/-- A scalar of the list equals the value but for case, though no text of the list does. -/
def TextMissed (item : Option Json) (scalars : List Scalar) : Prop :=
  (∃ s ∈ scalars, evaluate item .eqLower (.one s) = true) ∧
    ∀ text, .text text ∈ scalars → evaluate item .eqLower (.one (.text text)) = false

/-! ## Lists -/

theorem someItem_iff (h : ∀ items, item ≠ some (.arr items)) :
    someItem test item = true ↔ ∃ value, item = some value ∧ test value = true := by
  cases item with
  | none => simp [someItem]
  | some value =>
    have hvalue : someItem test (some value) = test value := by
      cases value with
      | arr items => exact absurd rfl (h items)
      | null | bool | num | str | obj => rfl
    simp [hvalue]

theorem isIn_iff (h : ∀ items, item ≠ some (.arr items)) :
    evaluate item .isIn (.many scalars) = true ↔
      item ≠ none ∧ ∃ s ∈ scalars, evaluate item .eq (.one s) = true := by
  refine (someItem_iff h).trans ⟨?_, ?_⟩
  · rintro ⟨value, rfl, hvalue⟩
    exact ⟨Option.some_ne_none value, List.any_eq_true.1 hvalue⟩
  · rintro ⟨hthere, heach⟩
    obtain ⟨value, rfl⟩ := Option.ne_none_iff_exists'.1 hthere
    exact ⟨value, rfl, List.any_eq_true.2 heach⟩

theorem eqLower_iff {s : Scalar} : evaluate item .eqLower (.one s) = true ↔
    ∃ text, item = some (.str text) ∧ Text.lower text = Text.lower s.toText := by
  cases item with
  | none => simp [evaluate, textTestLower]
  | some value =>
    cases value with
    | str text => simp [evaluate, Operand.asScalar?, textTestLower, sameText, String.toList_inj]
    | null | bool | num | arr | obj => simp [evaluate, textTestLower]

theorem inLower_iff (h : ∀ items, item ≠ some (.arr items)) :
    evaluate item .inLower (.many scalars) = true ↔
      ∃ text, .text text ∈ scalars ∧ evaluate item .eqLower (.one (.text text)) = true := by
  refine (someItem_iff h).trans ⟨?_, ?_⟩
  · rintro ⟨value, rfl, hvalue⟩
    obtain ⟨s, hs, hsame⟩ := List.any_eq_true.1 hvalue
    split at hsame
    · rename_i text other
      exact ⟨other, hs, eqLower_iff.2 ⟨text, rfl, beq_iff_eq.1 hsame⟩⟩
    · cases hsame
  · rintro ⟨other, hother, hequal⟩
    obtain ⟨text, rfl, hsame⟩ := eqLower_iff.1 hequal
    exact ⟨_, rfl, List.any_eq_true.2 ⟨_, hother, beq_iff_eq.2 hsame⟩⟩

/-! ## Where the two agree -/

theorem eq_none_iff {s : Scalar} : evaluate none .eq (.one s) = true ↔ s = .null := by
  cases s <;> simp [evaluate, Operand.asScalar?, equals, Scalar.isNull]

theorem someEach_isIn_iff (h : ∀ items, item ≠ some (.arr items)) :
    SomeEach item .isIn .eq scalars ↔ ¬ NullMissed item scalars := by
  rw [SomeEach, isIn_iff h, NullMissed]
  cases item with
  | none => simp [eq_none_iff]
  | some value => simp

theorem someEach_inLower_iff (h : ∀ items, item ≠ some (.arr items)) :
    SomeEach item .inLower .eqLower scalars ↔ ¬ TextMissed item scalars := by
  rw [SomeEach, inLower_iff h, TextMissed, not_and]
  push Not
  simp only [Bool.not_eq_false]
  exact ⟨fun hsame => hsame.2, fun hsome =>
    ⟨fun ⟨text, htext, hsame⟩ => ⟨_, htext, hsame⟩, hsome⟩⟩

/-- Operators that are the negations of others agree where these do. -/
theorem allEach_iff_someEach {listed single notListed notSingle : Operator}
    (hlisted : ∀ operand, evaluate item notListed operand = !evaluate item listed operand)
    (hsingle : ∀ operand, evaluate item notSingle operand = !evaluate item single operand) :
    AllEach item notListed notSingle scalars ↔ SomeEach item listed single scalars := by
  have hnone : (∀ s ∈ scalars, ¬ evaluate item single (.one s) = true) ↔
      ¬ ∃ s ∈ scalars, evaluate item single (.one s) = true := by
    push Not
    rfl
  simp only [AllEach, SomeEach, hlisted, hsingle, Bool.not_eq_true', ← Bool.not_eq_true]
  rw [hnone, not_iff_not]

/-- **Membership of a value that is no array is equality with some scalar of the list**, except that
a missing value is in no list, and that a list looks at its texts only where case is ignored. The
operators with `not` are the exact negations. -/
theorem membership (h : ∀ items, item ≠ some (.arr items)) (scalars : List Scalar) :
    (evaluate item .isIn (.many scalars) = true ↔
      item ≠ none ∧ ∃ s ∈ scalars, evaluate item .eq (.one s) = true) ∧
    (evaluate item .inLower (.many scalars) = true ↔
      ∃ text, .text text ∈ scalars ∧ evaluate item .eqLower (.one (.text text)) = true) ∧
    (∀ operand, evaluate item .notIn operand = !evaluate item .isIn operand) ∧
    (∀ operand, evaluate item .notInLower operand = !evaluate item .inLower operand) ∧
    (SomeEach item .isIn .eq scalars ↔ ¬ NullMissed item scalars) ∧
    (AllEach item .notIn .neq scalars ↔ ¬ NullMissed item scalars) ∧
    (SomeEach item .inLower .eqLower scalars ↔ ¬ TextMissed item scalars) ∧
    (AllEach item .notInLower .neqLower scalars ↔ ¬ TextMissed item scalars) := by
  have hnotIn : AllEach item .notIn .neq scalars ↔ SomeEach item .isIn .eq scalars :=
    allEach_iff_someEach (fun _ => rfl) fun _ => rfl
  have hnotInLower :
      AllEach item .notInLower .neqLower scalars ↔ SomeEach item .inLower .eqLower scalars :=
    allEach_iff_someEach (fun _ => rfl) fun _ => rfl
  exact ⟨isIn_iff h, inLower_iff h, fun _ => rfl, fun _ => rfl, someEach_isIn_iff h,
    hnotIn.trans (someEach_isIn_iff h), someEach_inLower_iff h,
    hnotInLower.trans (someEach_inLower_iff h)⟩

/-- The text of a number, in a list with the number and in one with a text. -/
theorem membership_number :
    SomeEach (some (.str "5")) .isIn .eq [.int 5, .null] ∧
      SomeEach (some (.str "5")) .inLower .eqLower [.int 5, .text "5"] ∧
      ¬ SomeEach (some (.str "5")) .inLower .eqLower [.int 5] := by
  have hvalue : ∀ items, (some (.str "5") : Option Json) ≠ some (.arr items) := nofun
  obtain ⟨-, -, -, -, hin, -, -, -⟩ := membership hvalue [.int 5, .null]
  obtain ⟨-, -, -, -, -, -, hboth, -⟩ := membership hvalue [.int 5, .text "5"]
  obtain ⟨-, -, -, -, -, -, hnumber, -⟩ := membership hvalue [.int 5]
  have hsame : ∀ s : Scalar, s.toText = "5" →
      evaluate (some (.str "5")) .eqLower (.one s) = true :=
    fun s hs => eqLower_iff.2 ⟨"5", rfl, by rw [hs]⟩
  refine ⟨hin.2 (fun hmissed => nomatch hmissed.1), hboth.2 fun hmissed => ?_, fun hsome => ?_⟩
  · exact absurd (hmissed.2 "5" (by simp)) (by rw [hsame (.text "5") rfl]; decide)
  · exact hnumber.1 hsome ⟨⟨.int 5, by simp, hsame (.int 5) (by decide)⟩, by simp⟩

/-- Compares the values at `a`. -/
def asking (op : Operator) (operand : Operand) : Request where
  condition := .leaf ⟨⟨["a"]⟩, op, operand⟩

/-- **A missing value equals null, and is not in a list of null alone.** -/
theorem membership_missing :
    build [] [.obj []] (asking .eq (.one .null)) = .ok [.obj []] ∧
      build [] [.obj []] (asking .isIn (.many [.null])) = .ok [] ∧
      ¬ SomeEach none .isIn .eq [.null] :=
  ⟨rfl, rfl, fun h => nomatch h.2 ⟨.null, by simp, rfl⟩⟩

end StoreQuery.Memory
