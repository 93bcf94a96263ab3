import StoreQuery.Document.Filter
import StoreQuery.Proofs.Condition.Faults
import StoreQuery.Proofs.Success

/-!
# Leaves that a document store refuses

Besides a value that its operator does not accept, a document store refuses a value that is to be
made a regular expression and is no text. So a leaf has a fault exactly if its operator does not
accept its value, or is about texts and some scalar of the value is none (`errorOf?_leafDocument`).

**A filter fails with the fault of the first leaf that has one** (`errorOf?_filter`). The other
refusals that are written down for operands never happen, since values are checked first: a range
always has its two bounds, and a fragment always is a document (`filter_error_cases`).
-/

namespace StoreQuery.Document

/-! ## Faults -/

/-- Whether an operator takes its value for texts. -/
def readsText : Operator → Bool
  | .starts | .ends | .contains | .notContains | .eqLower | .neqLower | .startsLower | .endsLower
  | .containsLower | .notContainsLower | .inLower | .notInLower => true
  | _ => false

def isText : Scalar → Bool
  | .text _ => true
  | _ => false

/-- Whether all scalars of an operand are texts. -/
def allTexts : Operand → Bool
  | .one scalar => isText scalar
  | .many scalars => scalars.all isText

/-- The fault of a value that should be texts and is not. -/
def textFault (op : Operator) (value : Operand) : Option Error :=
  if readsText op && !allTexts value then some (op.fault .notText) else none

/-- The fault of a leaf: its operator does not accept the value, or takes it for texts. -/
def fault (c : Comparison) : Option Error := c.fault.or (textFault c.operator c.value)

/-! ## Requirements -/

theorem errorOf?_listed (op : Operator) : ∀ scalars : List Scalar,
    errorOf? (scalars.mapM (listedPattern op)) =
      if scalars.all isText then none else some (op.fault .notText)
  | [] => rfl
  | scalar :: rest => by
    have ih := errorOf?_listed op rest
    rw [List.mapM_cons]
    cases scalar with
    | text s =>
      -- The first pattern is there, so the others decide.
      show errorOf? (rest.mapM (listedPattern op) >>= fun patterns => pure (_ :: patterns)) = _
      rw [List.all_cons, isText, Bool.true_and, ← ih]
      cases rest.mapM (listedPattern op) <;> rfl
    | null | bool _ | int _ | float _ | date _ => rfl

theorem errorOf?_listedPatterns (op : Operator) (scalars : List Scalar) :
    errorOf? (listedPatterns op (.many scalars)) =
      if scalars.all isText then none else some (op.fault .notText) := by
  rw [← errorOf?_listed]
  show errorOf? (scalars.mapM (listedPattern op) >>= fun patterns => pure (Json.arr patterns)) = _
  cases scalars.mapM (listedPattern op) <;> rfl

theorem errorOf?_requirement {op : Operator} {value : Operand}
    (h : op.validate value = .ok ()) : errorOf? (requirement op value) = textFault op value := by
  cases op with
  | eq | neq | gt | gte | lt | lte =>
    cases value with
    | one scalar => rfl
    | many scalars => cases h
  | isNull | notNull => rfl
  | isIn | notIn =>
    cases value with
    | one scalar => cases h
    | many scalars => rfl
  | between =>
    obtain ⟨low, high, rfl⟩ := Operator.bounds_of_validate h
    rfl
  | starts | ends | contains | notContains | eqLower | neqLower | startsLower | endsLower
  | containsLower | notContainsLower =>
    cases value with
    | one scalar => cases scalar <;> rfl
    | many scalars => cases h
  | inLower | notInLower =>
    cases value with
    | one scalar => cases h
    | many scalars =>
      rw [requirement, errorOf?_map, errorOf?_listedPatterns, textFault, readsText, allTexts]
      cases scalars.all isText <;> rfl

/-- **A leaf is refused exactly if it has a fault.** -/
theorem errorOf?_leafDocument (c : Comparison) (scope : Scope) :
    errorOf? (leafDocument c scope) = fault c := by
  rw [leafDocument, fault, Comparison.fault]
  cases hvalid : c.validate with
  | error e => rfl
  | ok _ =>
    show errorOf? (requirement c.operator c.value >>= fun value =>
      pure (some [(c.path.toText, value)])) = textFault c.operator c.value
    rw [← errorOf?_requirement hvalid]
    cases requirement c.operator c.value <;> rfl

/-! ## Filters -/

theorem compiler_rejectsBy : compiler.RejectsBy fault := .stateless errorOf?_leafDocument

/-- **A filter fails with the fault of the first leaf that has one.** -/
theorem errorOf?_filter (condition : Condition) :
    errorOf? (filter condition) = condition.leaves.findSome? fault := by
  rw [filter, errorOf?_map]
  exact compiler_rejectsBy.compilePure condition

theorem validate_error {op : Operator} {value : Operand} {e : Error}
    (h : op.validate value = .error e) : ∃ why, e = op.fault why ∧ why ≠ .notBounds := by
  revert h
  fun_cases Operator.validate op value <;> intro h <;> cases h
  case case2 => exact ⟨.notSingle, rfl, nofun⟩
  case case3 values _ _ => exact ⟨.notPair values.length, rfl, nofun⟩
  case case4 => exact ⟨.emptyList, rfl, nofun⟩
  case case6 => exact ⟨.notList, rfl, nofun⟩
  case case9 => exact ⟨.notVacant, rfl, nofun⟩

/-- Every error of a filter is about the value of a leaf; it never is about bounds that are not
there. -/
theorem filter_error_cases {condition : Condition} {e : Error} (h : filter condition = .error e) :
    ∃ c ∈ condition.leaves, ∃ why, e = c.operator.fault why ∧ why ≠ .notBounds := by
  have hfirst := errorOf?_filter condition
  rw [h, errorOf?] at hfirst
  obtain ⟨c, hc, hfault⟩ := List.exists_of_findSome?_eq_some hfirst.symm
  refine ⟨c, hc, ?_⟩
  rw [fault, Option.or_eq_some_iff] at hfault
  rcases hfault with hvalue | ⟨-, htext⟩
  · rw [Comparison.fault] at hvalue
    split at hvalue
    · cases hvalue
    · rename_i e' hvalid
      cases hvalue
      exact validate_error hvalid
  · rw [textFault] at htext
    split at htext
    · cases htext
      exact ⟨.notText, rfl, by decide⟩
    · cases htext

end StoreQuery.Document
