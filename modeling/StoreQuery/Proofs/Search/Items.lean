import StoreQuery.Condition.Filter
import StoreQuery.Proofs.Search.Steps

/-!
# The clauses of filter items

Filter items are read as clauses too. An item with a known operator is a leaf; a list of items is
a bracket, and where there are two lists, an OR holds the brackets of both.

**Filter items add their clauses** (`adds_addFilters`), as a search condition does. The two lists
fill brackets of one kind that are opened side by side in a fresh OR, so the second never goes
into the first.
-/

namespace StoreQuery.Search

open Builder

/-- The comparison of a filter item; an item without a known operator says nothing. -/
def itemClauses (text : String) : Except Error (List Clause) :=
  match FilterItem.ofText? text with
  | none => .ok []
  | some item =>
    match Operator.ofToken? item.token with
    | none => .ok []
    | some op => leafClauses (.ofText item.path) op (FilterItem.operand op item.value)

def itemsClauses : List String → Except Error (List Clause)
  | [] => .ok []
  | text :: texts => do
    let first ← itemClauses text
    let rest ← itemsClauses texts
    return first ++ rest

/-- The clauses of two lists of filter items, of which all or one of the items hold. -/
def filterClauses (all some : List String) : Except Error (List Clause) :=
  match all, some with
  | [], [] => .ok []
  | [], some => (itemsClauses some).map fun cs => [.group .or true cs]
  | all, [] => (itemsClauses all).map fun cs => [.group .and true cs]
  | all, some => do
    let first ← itemsClauses all
    let second ← itemsClauses some
    return [.group .or true [.group .and true first, .group .and true second]]

/-! ## What filter items add -/

theorem adds_addFilter (here : Nat) (k : Connective) (text : String) :
    Adds (addFilter here text) here k (itemClauses text) := by
  rw [addFilter, itemClauses]
  cases FilterItem.ofText? text with
  | none => exact .nothing here k
  | some item =>
    cases hop : Operator.ofToken? item.token with
    | none => simpa only [hop] using .nothing here k
    | some op => simpa only [hop] using adds_addField here k _ op _

theorem adds_addFilterItems (here : Nat) (k : Connective) : ∀ texts,
    Adds (addFilterItems here texts) here k (itemsClauses texts)
  | [] => .nothing here k
  | text :: texts => (adds_addFilter here k text).seq (adds_addFilterItems here k texts)

/-- **Filter items add their clauses.** -/
theorem adds_addFilters (here : Nat) (k : Connective) (all some : List String) :
    Adds (addFilters here all some) here k (filterClauses all some) := by
  match all, some with
  | [], [] => exact .nothing here k
  | [], text :: texts => exact .enter fun inside => adds_addFilterItems inside .or (text :: texts)
  | text :: texts, [] => exact .enter fun inside => adds_addFilterItems inside .and (text :: texts)
  | text :: texts, text' :: texts' =>
    have inner : ∀ either, Adds
        (do
          let first ← enter .and either
          addFilterItems first (text :: texts)
          let second ← enter .and either
          addFilterItems second (text' :: texts'))
        either .or
        (do
          let first ← itemsClauses (text :: texts)
          let second ← itemsClauses (text' :: texts')
          return [.group .and true first, .group .and true second]) := by
      intro either
      have listed : ∀ texts, Adds
          (do let inside ← enter .and either; addFilterItems inside texts) either .or
          ((itemsClauses texts).map fun cs => [.group .and true cs]) :=
        fun texts => .enter fun inside => adds_addFilterItems inside .and texts
      -- The second bracket is entered from the OR again, not from inside the first.
      have both := (listed (text :: texts)).seq (listed (text' :: texts'))
      simp only [bind_assoc] at both
      refine both.congr ?_
      cases itemsClauses (text :: texts) <;> cases itemsClauses (text' :: texts') <;> rfl
    refine (Adds.enter inner).congr ?_
    rw [filterClauses]
    · cases itemsClauses (text :: texts) <;> cases itemsClauses (text' :: texts') <;> rfl
    all_goals nofun

end StoreQuery.Search
