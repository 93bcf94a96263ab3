import StoreQuery.Condition.Search
import StoreQuery.Proofs.Condition.Meaning

/-!
# The clauses of a search condition

What a search condition adds to a builder, without the builder. A clause is a leaf or a group of
clauses that all hold, or of which one holds. A group is *bracketed* if a bracket of its kind is
entered for its members; otherwise they go loose into the bracket at hand, whatever its kind.

`Search.clauses` reads a search condition as clauses, and `Clause.parts` says what a clause adds
to a bracket of a given kind. It adds the leaves of the clause, in their order (`leaves_parts`).
-/

namespace StoreQuery.Search

/-- A part of a search condition, with values that their operators accept. -/
inductive Clause where
  | leaf (comparison : Comparison) (accepted : comparison.validate = .ok ())
  | group (kind : Connective) (bracketed : Bool) (members : List Clause)

namespace Clause

/-- The kind of the bracket in which the members of a group stand. -/
def place (k kind : Connective) (bracketed : Bool) : Connective := if bracketed then kind else k

/-- Conditions in a bracket of their own, unless the bracket at hand is of its kind. -/
def bracket (k kind : Connective) (parts : List Condition) : List Condition :=
  if kind = k then parts else [.group kind parts]

mutual

/-- The conditions that a clause adds to a bracket of a kind. -/
def parts (k : Connective) : Clause → List Condition
  | .leaf c _ => [.leaf c]
  | .group kind bracketed members =>
    bracket k (place k kind bracketed) (partsOf (place k kind bracketed) members)

/-- The conditions that several clauses add to a bracket of a kind. -/
def partsOf (k : Connective) : List Clause → List Condition
  | [] => []
  | clause :: rest => parts k clause ++ partsOf k rest

end

theorem partsOf_append (k : Connective) (xs ys : List Clause) :
    partsOf k (xs ++ ys) = partsOf k xs ++ partsOf k ys := by
  induction xs with
  | nil => rfl
  | cons clause xs ih => rw [List.cons_append, partsOf, partsOf, ih, List.append_assoc]

/-- A loose group adds what its members add. -/
theorem partsOf_loose (k kind : Connective) (members : List Clause) :
    partsOf k [.group kind false members] = partsOf k members := by
  simp [partsOf, parts, place, bracket]

mutual

/-- The clause as a condition of its own, in which every group has a bracket of its kind. -/
def plain : Clause → Condition
  | .leaf c _ => .leaf c
  | .group kind _ members => .group kind (plainOf members)

def plainOf : List Clause → List Condition
  | [] => []
  | clause :: rest => plain clause :: plainOf rest

end

theorem plainOf_eq (clauses : List Clause) : plainOf clauses = clauses.map plain := by
  induction clauses with
  | nil => rfl
  | cons clause rest ih => rw [plainOf, ih, List.map_cons]

@[simp] theorem plain_leaf (c : Comparison) (h : c.validate = .ok ()) :
    plain (.leaf c h) = .leaf c := rfl

@[simp] theorem plain_group (kind : Connective) (bracketed : Bool) (members : List Clause) :
    plain (.group kind bracketed members) = .group kind (members.map plain) := by
  rw [plain, plainOf_eq]

@[simp] theorem leavesOf_bracket (k kind : Connective) (parts : List Condition) :
    Condition.leavesOf (bracket k kind parts) = Condition.leavesOf parts := by
  rw [bracket]
  split
  · rfl
  · simp [Condition.leavesOf_eq]

mutual

/-- A clause adds its leaves. -/
theorem leaves_parts (k : Connective) :
    ∀ clause, Condition.leavesOf (parts k clause) = clause.plain.leaves
  | .leaf _ _ => rfl
  | .group kind bracketed members => by
    rw [parts, leavesOf_bracket, leaves_partsOf, plain, Condition.leaves]

theorem leaves_partsOf (k : Connective) :
    ∀ clauses, Condition.leavesOf (partsOf k clauses) = Condition.leavesOf (plainOf clauses)
  | [] => rfl
  | clause :: rest => by
    rw [partsOf, plainOf, Condition.leavesOf_eq, List.flatMap_append, ← Condition.leavesOf_eq,
      ← Condition.leavesOf_eq, leaves_parts, leaves_partsOf, Condition.leavesOf]

end

mutual

/-- Every leaf carries a value that its operator accepts. -/
theorem validate_leaves : ∀ {clause : Clause}, ∀ c ∈ clause.plain.leaves, c.validate = .ok ()
  | .leaf _ h, c, hc => by
    obtain rfl := List.mem_singleton.1 hc
    exact h
  | .group _ _ members, c, hc => validate_leavesOf c hc

theorem validate_leavesOf : ∀ {clauses : List Clause},
    ∀ c ∈ Condition.leavesOf (plainOf clauses), c.validate = .ok ()
  | clause :: rest, c, hc => by
    rcases List.mem_append.1 hc with hc | hc
    · exact validate_leaves c hc
    · exact validate_leavesOf c hc

end

end Clause

/-! ## Clauses of operators -/

/-- A comparison with a value, if the operator accepts it. -/
def leafClauses (path : Path) (op : Operator) (operand : Operand) : Except Error (List Clause) :=
  match h : op.validate operand with
  | .ok () => .ok [.leaf ⟨path, op, operand⟩ h]
  | .error e => .error e

/-- The comparison with a value, or the error for what cannot be compared with. -/
def valueClauses (path : Path) (op : Operator) (refusal : Error) (value : Json) :
    Except Error (List Clause) :=
  match Operand.ofJson? value with
  | some operand => leafClauses path op operand
  | none => .error refusal

mutual

/-- The comparison of an operator; an array given to an operator that takes a single value stands
for a group of comparisons with its items, all of which hold. -/
def operandClauses (path : Path) (op : Operator) : Json → Except Error (List Clause)
  | .arr items =>
    if op.shape = .single then (operandsClauses path op items).map fun cs => [.group .and false cs]
    else valueClauses path op (op.fault (.notComparable path.toText)) (.arr items)
  | value => valueClauses path op (op.fault (.notComparable path.toText)) value

def operandsClauses (path : Path) (op : Operator) : List Json → Except Error (List Clause)
  | [] => .ok []
  | item :: items => do
    let first ← operandClauses path op item
    let rest ← operandsClauses path op items
    return first ++ rest

end

/-- The comparisons of the operators that an object names. -/
def operatorClauses (path : Path) : List (String × Json) → Except Error (List Clause)
  | [] => .ok []
  | (token, value) :: rest => do
    let first ← match Operator.ofToken? token with
      | some op => operandClauses path op value
      | none => .ok []
    let others ← operatorClauses path rest
    return first ++ others

/-! ## Clauses of properties -/

mutual

/-- What a value says about a property. -/
def propertyClauses (path : Path) : Json → Except Error (List Clause)
  | .obj operators => do
    let named ← operatorClauses path operators
    let alternatives ← alternativeClauses path operators
    return named ++ alternatives
  | value => valueClauses path .eq (.parse (.notComparable path.toText)) value

/-- The alternatives that an object of operators gives: a bracketed OR. -/
def alternativeClauses (path : Path) : List (String × Json) → Except Error (List Clause)
  | [] => .ok []
  | (name, value) :: rest =>
    if name = "$or" then
      if value.isNull then .ok []
      else (propertyClauses path value).map fun cs => [.group .or true cs]
    else alternativeClauses path rest

end

/-! ## Clauses of conditions -/

/-- How many conditions a member lists. -/
def listCount (name : String) : Json → Except Error Nat
  | .arr items => .ok items.length
  | _ => .error (.parse (.notConditions name))

mutual

/-- The clauses of a search condition. An object is bracketed if it has several members, `$and` if
it lists several conditions or stands beside other members, `$or` if it lists several. -/
def clauses (context : Path) : Json → Except Error (List Clause)
  | .obj members =>
    match members.lookup "$and", members.lookup "$or" with
    | some list, _ => do
      let count ← listCount "$and" list
      let listed ← listedClauses "$and" context members
      let others ← memberClauses context members
      return [.group .and (1 < count || 1 < members.length) (listed ++ others)]
    | none, some list => do
      let count ← listCount "$or" list
      if members.length = 1 then
        let listed ← listedClauses "$or" context members
        return [.group .or (1 < count) listed]
      else
        let others ← memberClauses context members
        let listed ← listedClauses "$or" context members
        return [.group .and true <|
          if 1 < count then .group .or true listed :: others
          else others ++ [.group .or false listed]]
    | none, none => do
      let others ← memberClauses context members
      return [.group .and (1 < members.length) others]
  | _ => .ok []

/-- The clauses of the conditions that the member of a given name lists. -/
def listedClauses (name : String) (context : Path) :
    List (String × Json) → Except Error (List Clause)
  | [] => .ok []
  | (n, value) :: rest =>
    if n = name then conditionsClauses context value else listedClauses name context rest

/-- The clauses of every member but `$and` and `$or`. -/
def memberClauses (context : Path) : List (String × Json) → Except Error (List Clause)
  | [] => .ok []
  | (name, value) :: rest => do
    let first ←
      if name = "$and" ∨ name = "$or" then .ok []
      else (fieldClauses (context.join (.ofText name)) value).map fun cs => [.group .and false cs]
    let others ← memberClauses context rest
    return first ++ others

/-- What a member says about its property: a loose AND. -/
def fieldClauses (path : Path) : Json → Except Error (List Clause)
  | .null => .ok []
  | .arr items => allClauses path items
  | value => propertyClauses path value

/-- The clauses of the conditions in an array. -/
def conditionsClauses (context : Path) : Json → Except Error (List Clause)
  | .arr items => allClauses context items
  | _ => .ok []

/-- The clauses of several conditions, each of them a group of its own. -/
def allClauses (context : Path) : List Json → Except Error (List Clause)
  | [] => .ok []
  | item :: items => do
    let first ← clauses context item
    let rest ← allClauses context items
    return first ++ rest

end

end StoreQuery.Search
