import StoreQuery.Proofs.Condition.Meaning

/-!
# Conditions without empty brackets

The plain reading of a condition needs no missing statements. First every bracket that contains no
leaf is dropped, from the inside out (`Condition.pruned`); of what is left, if anything, an AND is
true if all its members are, an OR if one of them is, and a leaf if its comparison holds
(`Condition.truth`).

**A condition says what is left of it** (`Condition.meaning_eq_truth`), so **the test of a condition
is its plain truth** (`Memory.predicate_truth`): there is one exactly if every operator accepts its
value, and a document passes it exactly if what is left of the condition is true of it, or nothing
is left.
-/

namespace StoreQuery

namespace Condition

/-! ## Dropping empty brackets -/

/-- A bracket around members, unless there are none. -/
def bracket? (k : Connective) : List Condition → Option Condition
  | [] => none
  | first :: rest => some (.group k (first :: rest))

mutual

/-- The condition without the brackets that contain no leaf. -/
def pruned : Condition → Option Condition
  | .leaf c => some (.leaf c)
  | .group k members => bracket? k (prunedAll members)

/-- What is left of each of the members of a bracket. -/
def prunedAll : List Condition → List Condition
  | [] => []
  | condition :: rest => condition.pruned.toList ++ prunedAll rest

end

/-! ## Truth -/

mutual

/-- Whether a condition is true, given which comparisons hold. -/
def truth (holds : Comparison → Bool) : Condition → Bool
  | .leaf c => holds c
  | .group .and members => allTrue holds members
  | .group .or members => someTrue holds members

/-- Whether all conditions are true. -/
def allTrue (holds : Comparison → Bool) : List Condition → Bool
  | [] => true
  | condition :: rest => condition.truth holds && allTrue holds rest

/-- Whether one of the conditions is true. -/
def someTrue (holds : Comparison → Bool) : List Condition → Bool
  | [] => false
  | condition :: rest => condition.truth holds || someTrue holds rest

end

variable {holds : Comparison → Bool}

theorem merge_truth (k : Connective) (first : Condition) (rest : List Condition) :
    k.merge (some (first.truth holds)) ((bracket? k rest).map (truth holds)) =
      some ((Condition.group k (first :: rest)).truth holds) := by
  cases rest with
  | nil => cases k <;> simp [bracket?, truth, allTrue, someTrue]
  | cons second rest => cases k <;> rfl

mutual

/-- **A condition says what is left of it.** -/
theorem meaning_eq_truth (holds : Comparison → Bool) : ∀ condition : Condition,
    condition.meaning holds = condition.pruned.map (truth holds)
  | .leaf _ => rfl
  | .group k members => meaningOf_eq_truth holds k members

theorem meaningOf_eq_truth (holds : Comparison → Bool) (k : Connective) :
    ∀ members : List Condition,
      meaningOf holds k members = (bracket? k (prunedAll members)).map (truth holds)
  | [] => rfl
  | condition :: rest => by
    rw [meaningOf, prunedAll, meaning_eq_truth holds condition, meaningOf_eq_truth holds k rest]
    cases condition.pruned with
    | none => exact k.merge_none_left _
    | some left => exact merge_truth k left (prunedAll rest)

end

end Condition

namespace Memory

/-! ## Tests -/

/-- **The test of a condition is its plain truth.** -/
theorem predicate_truth (condition : Condition) :
    ((∃ test, predicate condition = .ok test) ↔
      ∀ c ∈ condition.leaves, c.operator.validate c.value = .ok ()) ∧
    ∀ test, predicate condition = .ok test → ∀ document : Json,
      test document = match condition.pruned with
        | none => true
        | some left => left.truth fun c =>
          evaluate (document.atPath? c.path) c.operator c.value := by
  refine ⟨predicate_isOk_iff, fun test h document => ?_⟩
  rw [predicate_eq h, Condition.accepts, Condition.meaning_eq_truth]
  cases condition.pruned with
  | none => rfl
  | some left => rfl

/-- Empty brackets in an AND and in an OR, one of them around others. -/
def hollow : Condition := .group .or
  [.group .and [.group .or [], .group .and [.group .or []]],
    .group .and [.group .or [], .leaf ⟨⟨["open"]⟩, .eq, .one (.bool true)⟩,
      .group .or [.leaf ⟨⟨["name"]⟩, .isIn, .many [.text "a", .text "b"]⟩]]]

/-- Brackets that are true or false of themselves do not count: what is closed is not let in by the
first one, nor is what is open kept out by the one beside it. -/
theorem predicate_truth_hollow :
    ∃ test, predicate hollow = .ok test ∧
      (∀ c ∈ hollow.leaves, c.operator.validate c.value = .ok ()) ∧
      test (.obj [("open", .bool true), ("name", .str "b")]) = true ∧
      test (.obj [("open", .bool false), ("name", .str "b")]) = false := by
  obtain ⟨test, htest⟩ : ∃ test, predicate hollow = .ok test := ⟨_, rfl⟩
  obtain ⟨hvalid, htruth⟩ := predicate_truth hollow
  refine ⟨test, htest, hvalid.1 ⟨test, htest⟩, ?_, ?_⟩
  · rw [htruth test htest]
    rfl
  · rw [htruth test htest]
    rfl

end Memory

end StoreQuery
