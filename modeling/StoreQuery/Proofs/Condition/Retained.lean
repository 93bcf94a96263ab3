import StoreQuery.Condition.Basic

/-!
# Conditions without some of their leaves

Read from its beginning to its end, a condition is a row of marks: brackets that open and close, and
comparisons. The marks are all there is to a condition (`marks_inj`).

**Leaves that are not kept are left out of the marks, and nothing else changes** (`marks_retain`):
no bracket goes, not even one that is left empty, and what is kept stays in its bracket and in its
order. A condition that is a single comparison has no bracket to leave, and gives way to an empty
AND.
-/

namespace StoreQuery.Condition

/-! ## Marks -/

/-- What stands in a condition at one place. -/
inductive Mark where
  | opens (k : Connective)
  | leaf (c : Comparison)
  | closes

namespace Mark

/-- The comparison that stands there, if any. -/
def comparison? : Mark → Option Comparison
  | leaf c => some c
  | opens _ | closes => none

/-- Whether it is a bracket, or a leaf that is kept. -/
def isKept (keep : Comparison → Bool) : Mark → Bool
  | leaf c => keep c
  | opens _ | closes => true

end Mark

mutual

/-- The marks of a condition, from its beginning to its end. -/
def marks : Condition → List Mark
  | .leaf c => [.leaf c]
  | .group k members => .opens k :: (marksOf members ++ [.closes])

/-- The marks of a list of conditions, one condition after the other. -/
def marksOf : List Condition → List Mark
  | [] => []
  | condition :: rest => marks condition ++ marksOf rest

end

mutual

theorem marks_append_inj : ∀ {condition condition' : Condition} {rest rest' : List Mark},
    condition.marks ++ rest = condition'.marks ++ rest' → condition = condition' ∧ rest = rest'
  | .leaf c, .leaf c', _, _, h => by simpa [marks] using h
  | .leaf c, .group k members, _, _, h => by simp [marks] at h
  | .group k members, .leaf c, _, _, h => by simp [marks] at h
  | .group k members, .group k' members', _, _, h => by
    simp only [marks, List.cons_append, List.append_assoc, List.nil_append, List.cons.injEq,
      Mark.opens.injEq] at h
    obtain ⟨rfl, hmembers⟩ := h
    obtain ⟨rfl, rfl⟩ := marksOf_append_inj hmembers
    exact ⟨rfl, rfl⟩

/-- Members are read up to the end of their bracket. -/
theorem marksOf_append_inj : ∀ {members members' : List Condition} {rest rest' : List Mark},
    marksOf members ++ .closes :: rest = marksOf members' ++ .closes :: rest' →
      members = members' ∧ rest = rest'
  | [], [], _, _, h => by simpa [marksOf] using h
  | [], condition :: members, _, _, h => by cases condition <;> simp [marksOf, marks] at h
  | condition :: members, [], _, _, h => by cases condition <;> simp [marksOf, marks] at h
  | condition :: members, condition' :: members', _, _, h => by
    rw [marksOf, marksOf, List.append_assoc, List.append_assoc] at h
    obtain ⟨rfl, hrest⟩ := marks_append_inj h
    obtain ⟨rfl, rfl⟩ := marksOf_append_inj hrest
    exact ⟨rfl, rfl⟩

end

/-- **A condition is known by its marks.** -/
theorem marks_inj {condition condition' : Condition} :
    condition.marks = condition'.marks ↔ condition = condition' := by
  refine ⟨fun h => ?_, fun h => h ▸ rfl⟩
  have hnone : condition.marks ++ [] = condition'.marks ++ [] := by rw [h]
  exact (marks_append_inj hnone).1

mutual

theorem leaves_eq_marks : ∀ condition : Condition,
    condition.leaves = condition.marks.filterMap Mark.comparison?
  | .leaf c => rfl
  | .group k members => by
    rw [leaves, marks, leavesOf_eq_marks members]
    simp [Mark.comparison?, List.filterMap_cons]

theorem leavesOf_eq_marks : ∀ members : List Condition,
    leavesOf members = (marksOf members).filterMap Mark.comparison?
  | [] => rfl
  | condition :: rest => by
    rw [leavesOf, marksOf, leaves_eq_marks condition, leavesOf_eq_marks rest,
      List.filterMap_append]

end

/-! ## Leaves that are kept -/

variable (keep : Comparison → Bool)

mutual

theorem marks_retainInside : ∀ k members,
    (retainInside keep (.group k members)).marks =
      (Condition.group k members).marks.filter (Mark.isKept keep)
  | k, members => by
    rw [retainInside, marks, marks, marksOf_retainMembers members]
    simp [Mark.isKept, List.filter_cons]

theorem marksOf_retainMembers : ∀ members,
    marksOf (retainMembers keep members) = (marksOf members).filter (Mark.isKept keep)
  | [] => rfl
  | .leaf c :: rest => by
    have ih := marksOf_retainMembers rest
    by_cases hc : keep c = true <;> simp [retainMembers, marksOf, marks, Mark.isKept, hc, ih]
  | .group k members :: rest => by
    rw [retainMembers, marksOf, marksOf, marks_retainInside k members, marksOf_retainMembers rest,
      List.filter_append]

end

/-- **A bracket loses the leaves inside it that are not kept, and nothing else.** -/
theorem marks_retain (k : Connective) (members : List Condition) :
    ((Condition.group k members).retain keep).marks =
      (Condition.group k members).marks.filter (Mark.isKept keep) :=
  marks_retainInside keep k members

theorem filterMap_comparison?_filter (marks : List Mark) :
    (marks.filter (Mark.isKept keep)).filterMap Mark.comparison? =
      (marks.filterMap Mark.comparison?).filter keep := by
  induction marks with
  | nil => rfl
  | cons mark marks ih =>
    cases mark with
    | leaf c => by_cases hc : keep c = true <;> simp [Mark.isKept, Mark.comparison?, hc, ih]
    | opens | closes =>
      simpa [Mark.isKept, Mark.comparison?, List.filter_cons, List.filterMap_cons] using ih

theorem leaves_retain (condition : Condition) :
    (condition.retain keep).leaves = condition.leaves.filter keep := by
  cases condition with
  | leaf c => by_cases hc : keep c = true <;> simp [retain, unconstrained, leaves, leavesOf, hc]
  | group k members =>
    rw [leaves_eq_marks, leaves_eq_marks, marks_retain, filterMap_comparison?_filter]

end StoreQuery.Condition
