import StoreQuery.Error
import StoreQuery.Scalar

/-!
# Comparison operators

Each operator has a name, a token in search conditions, and a shape of value that it accepts:
one scalar, a list of scalars, or nothing.
-/

namespace StoreQuery

/-- How a property is compared. The operators ending in `Lower` ignore case. -/
inductive Operator where
  | eq
  | neq
  | gt
  | gte
  | lt
  | lte
  | starts
  | ends
  | contains
  | notContains
  | isIn
  | notIn
  | between
  | isNull
  | notNull
  | eqLower
  | neqLower
  | startsLower
  | endsLower
  | containsLower
  | notContainsLower
  | inLower
  | notInLower
  deriving DecidableEq, Repr

/-- The shape of value an operator accepts. -/
inductive OperandShape where
  | single
  | list
  | vacant
  deriving DecidableEq, Repr

namespace Operator

def all : List Operator :=
  [eq, neq, gt, gte, lt, lte, starts, ends, contains, notContains, isIn, notIn, between, isNull,
    notNull, eqLower, neqLower, startsLower, endsLower, containsLower, notContainsLower, inLower,
    notInLower]

def name : Operator → String
  | eq => "eq"
  | neq => "neq"
  | gt => "gt"
  | gte => "gte"
  | lt => "lt"
  | lte => "lte"
  | starts => "starts"
  | ends => "ends"
  | contains => "contains"
  | notContains => "not_contains"
  | isIn => "in"
  | notIn => "not_in"
  | between => "between"
  | isNull => "is_null"
  | notNull => "not_null"
  | eqLower => "eq_lower"
  | neqLower => "neq_lower"
  | startsLower => "starts_lower"
  | endsLower => "ends_lower"
  | containsLower => "contains_lower"
  | notContainsLower => "not_contains_lower"
  | inLower => "in_lower"
  | notInLower => "not_in_lower"

/-- The token that stands for the operator in search conditions. -/
def token : Operator → String
  | eq => "$eq"
  | neq => "$ne"
  | gt => "$gt"
  | gte => "$gte"
  | lt => "$lt"
  | lte => "$lte"
  | starts => "$starts"
  | ends => "$ends"
  | contains => "$cont"
  | notContains => "$excl"
  | isIn => "$in"
  | notIn => "$notin"
  | between => "$between"
  | isNull => "$isnull"
  | notNull => "$notnull"
  | eqLower => "$eqL"
  | neqLower => "$neL"
  | startsLower => "$startsL"
  | endsLower => "$endsL"
  | containsLower => "$contL"
  | notContainsLower => "$exclL"
  | inLower => "$inL"
  | notInLower => "$notinL"

def ofName? (text : String) : Option Operator := all.find? fun op => op.name = text

def ofToken? (text : String) : Option Operator := all.find? fun op => op.token = text

def shape : Operator → OperandShape
  | isIn | notIn | between | inLower | notInLower => .list
  | isNull | notNull => .vacant
  | _ => .single

/-- The error of a value that the operator does not accept. -/
def fault (op : Operator) (fault : ValueFault) : Error := .invalidValue op.name fault

/-- Checks that a value has the shape the operator accepts: `between` takes two scalars, the
other list operators at least one, and the null tests take null or `true`. -/
def validate (op : Operator) (value : Operand) : Except Error Unit :=
  match op.shape, value with
  | .single, .one _ => .ok ()
  | .single, .many _ => .error (op.fault .notSingle)
  | .list, .many values =>
    if op = between ∧ values.length ≠ 2 then .error (op.fault (.notPair values.length))
    else if values.isEmpty then .error (op.fault .emptyList)
    else .ok ()
  | .list, .one _ => .error (op.fault .notList)
  | .vacant, .one .null => .ok ()
  | .vacant, .one (.bool true) => .ok ()
  | .vacant, _ => .error (op.fault .notVacant)

end Operator

end StoreQuery
