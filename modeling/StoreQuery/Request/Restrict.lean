import StoreQuery.Request.Basic

/-!
# Restricting requests

A request that comes from outside is restricted before it is answered: conditions are forced on
it, properties and relations are cut down to a list of allowed ones, and the limit is kept within
bounds. Lists of allowed properties are lists of path texts.
-/

namespace StoreQuery.Request

/-! ## Forced conditions -/

/-- Both conditions: the forced one goes last into an AND, and in front of anything else. -/
def force (condition forced : Condition) : Condition :=
  match condition with
  | .group .and members => .group .and (members ++ [forced])
  | other => .group .and [forced, other]

/-- Forces a condition on the request. -/
def requireCondition (r : Request) (condition : Condition) : Request :=
  { r with condition := force r.condition condition }

/-- Forces a property to equal a value. -/
def requireEqual (r : Request) (path : Path) (value : Scalar) : Except Error Request :=
  (Condition.field path .eq (.one value)).map r.requireCondition

/-- The operator that compares with an operand for equality: with a list, being in it. -/
def equality : Operand → Operator
  | .one _ => .eq
  | .many _ => .isIn

mutual

/-- Forces the property at a path to equal a value; an object is compared property by
property. -/
def requireValue (r : Request) (path : Path) : Json → Except Error Request
  | .obj members => requireEntity r path members
  | value =>
    match Operand.ofJson? value with
    | none => .error (Operator.eq.fault (.notComparable path.toText))
    | some operand =>
      (Condition.field path (equality operand) operand).map r.requireCondition

/-- Forces the properties below a path to equal those of an entity. -/
def requireEntity (r : Request) (base : Path) : List (String × Json) → Except Error Request
  | [] => .ok r
  | (key, value) :: rest =>
    match requireValue r (base.child key) value with
    | .ok r => requireEntity r base rest
    | .error e => .error e

end

/-! ## Allowed properties -/

/-- Whether a list of path texts allows a path. -/
def allows (allowed : List String) (path : Path) : Bool := allowed.contains path.toText

/-- Cuts everything in the request down to the allowed properties. A request that selects nothing
selects them all. -/
def restrictProperties (r : Request) (allowed : List String) : Request :=
  { r with
    select :=
      if r.select.isEmpty then allowed.map .ofText else r.select.filter (allows allowed)
    condition := r.condition.retain fun c => allows allowed c.path
    order := r.order.filter fun o => allows allowed o.path
    relations := r.relations.filter fun relation => allows allowed relation.path }

/-- Cuts the relations down to the allowed ones. -/
def restrictRelations (r : Request) (allowed : List String) : Request :=
  { r with relations := r.relations.filter fun relation => allows allowed relation.path }

/-! ## Bounded limits -/

/-- Keeps the limit between 1 and a maximum, after giving it a default. -/
def restrictLimit (r : Request) (default max : UInt64) : Request :=
  { r with limit := some (Min.min (Max.max (r.limit.getD default) 1) max) }

end StoreQuery.Request
