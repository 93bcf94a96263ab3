import StoreQuery.Json.Fields
import StoreQuery.Json.Text
import StoreQuery.Operator
import StoreQuery.Path

/-!
# Conditions

A condition is a tree: its leaves compare a property with a value, and its brackets combine any
number of conditions by AND or OR. A bracket without members places no constraint; it is not the
same as a condition that is always true or always false.
-/

namespace StoreQuery

/-- How a bracket combines its members. -/
inductive Connective where
  | and
  | or
  deriving DecidableEq, Repr

def Connective.text : Connective → String
  | .and => "AND"
  | .or => "OR"

/-- A property compared with a value. -/
structure Comparison where
  path : Path
  operator : Operator
  value : Operand
  deriving DecidableEq

/-- A tree of comparisons. -/
inductive Condition where
  | leaf (comparison : Comparison)
  | group (connective : Connective) (members : List Condition)

namespace Comparison

/-- Whether the operator accepts the value. -/
def validate (c : Comparison) : Except Error Unit := c.operator.validate c.value

/-- Builds a comparison whose operator accepts the value. -/
def make (path : Path) (operator : Operator) (value : Operand) : Except Error Comparison :=
  match operator.validate value with
  | .ok () => .ok ⟨path, operator, value⟩
  | .error fault => .error fault

def toText (c : Comparison) : String :=
  c.path.toText ++ " " ++ c.operator.name ++ " " ++ c.value.toJson.compact

end Comparison

namespace Condition

/-- The condition without any constraint: an empty AND. -/
def unconstrained : Condition := .group .and []

instance : Inhabited Condition := ⟨unconstrained⟩

/-- A leaf whose operator accepts the value. -/
def field (path : Path) (operator : Operator) (value : Operand) : Except Error Condition :=
  (Comparison.make path operator value).map .leaf

/-- Whether the condition is a bracket without members. -/
def isEmpty : Condition → Bool
  | .leaf _ => false
  | .group _ members => members.isEmpty

/-! ## Leaves -/

mutual

/-- The comparisons of a condition, in document order. -/
def leaves : Condition → List Comparison
  | .leaf c => [c]
  | .group _ members => leavesOf members

/-- The comparisons of a list of conditions, in document order. -/
def leavesOf : List Condition → List Comparison
  | [] => []
  | condition :: rest => leaves condition ++ leavesOf rest

end

mutual

/-- Drops the leaves inside a bracket that are not kept. Brackets stay, even when they lose all
their members. -/
def retainInside (keep : Comparison → Bool) : Condition → Condition
  | .leaf c => .leaf c
  | .group k members => .group k (retainMembers keep members)

/-- Drops the leaves in a list of members, and inside its brackets, that are not kept. -/
def retainMembers (keep : Comparison → Bool) : List Condition → List Condition
  | [] => []
  | .leaf c :: rest =>
    if keep c then .leaf c :: retainMembers keep rest else retainMembers keep rest
  | .group k members :: rest =>
    retainInside keep (.group k members) :: retainMembers keep rest

end

/-- Drops the leaves that are not kept. A condition that is itself such a leaf leaves no
constraint. -/
def retain (keep : Comparison → Bool) : Condition → Condition
  | .leaf c => if keep c then .leaf c else unconstrained
  | .group k members => retainInside keep (.group k members)

/-! ## Text -/

mutual

/-- The condition as text, with parentheses around every bracket. -/
def toText : Condition → String
  | .leaf c => c.toText
  | .group k members => "(" ++ membersText k members ++ ")"

/-- Members with their connective between them. -/
def membersText (k : Connective) : List Condition → String
  | [] => ""
  | [condition] => toText condition
  | condition :: rest => toText condition ++ " " ++ k.text ++ " " ++ membersText k rest

end

end Condition

end StoreQuery
