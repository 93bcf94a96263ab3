import StoreQuery.Condition.Basic

/-!
# Conditions in JSON

A bracket is an object with one member, `and` or `or`, that lists its members. A leaf is an object
with the members `field` (the segments of the path), `operator` and `value`. Reading also takes an
array `[field, operator, value]` for a leaf, lets an object with a readable `and` or `or` be a
bracket whatever else it has, and takes a missing value for null. A value that was read is not
checked against its operator.
-/

namespace StoreQuery

namespace Path

/-- The JSON value of a path: its segments. -/
def encode (p : Path) : Json := .ofStrings p.segments

def decode? (value : Json) : Option Path := (Json.list? Json.asText? value).map .mk

end Path

namespace Operator

def encode (op : Operator) : Json := .str op.name

def decode? (value : Json) : Option Operator := Json.choice? ofName? value

end Operator

namespace Comparison

def encode (c : Comparison) : Json :=
  .obj [("field", c.path.encode), ("operator", c.operator.encode), ("value", c.value.encode)]

def decode? (value : Json) : Option Comparison := do
  match ← Json.fields? [.needed "field", .needed "operator", .spare "value"] value with
  | [path, operator, value] =>
    some {
      path := ← Json.required? Path.decode? path
      operator := ← Json.required? Operator.decode? operator
      value := ← Json.withDefault? default Operand.ofJson? value }
  | _ => none

end Comparison

namespace Condition

/-! ## Writing -/

/-- The name under which a bracket lists its members. -/
def keyOf : Connective → String
  | .and => "and"
  | .or => "or"

mutual

def encode : Condition → Json
  | .leaf c => c.encode
  | .group k members => .obj [(keyOf k, .arr (encodeAll members))]

def encodeAll : List Condition → List Json
  | [] => []
  | condition :: rest => encode condition :: encodeAll rest

end

/-! ## Reading -/

/-- Keeps the first reading that there is. -/
def firstOf {α : Type} : Option α → Option α → Option α
  | some a, _ => some a
  | none, second => second

mutual

/-- Reads a condition: as an AND, as an OR, or else as a leaf. -/
def decode? : Json → Option Condition
  | .obj members =>
    firstOf (memberList? "and" members |>.map (.group .and))
      (firstOf (memberList? "or" members |>.map (.group .or))
        ((Comparison.decode? (.obj members)).map .leaf))
  | value => (Comparison.decode? value).map .leaf

/-- Reads the member of an object with a given name as a list of conditions. -/
def memberList? (name : String) : List (String × Json) → Option (List Condition)
  | [] => none
  | (n, value) :: rest => if n = name then listOf? value else memberList? name rest

/-- Reads an array of conditions. -/
def listOf? : Json → Option (List Condition)
  | .arr items => decodeAll? items
  | _ => none

/-- Reads conditions that are all readable. -/
def decodeAll? : List Json → Option (List Condition)
  | [] => some []
  | value :: rest => do
    let condition ← decode? value
    let conditions ← decodeAll? rest
    some (condition :: conditions)

end

end Condition

end StoreQuery
