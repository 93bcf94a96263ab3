import StoreQuery.Json.Basic
import StoreQuery.Number.Text
import StoreQuery.Time.Timestamp

/-!
# Values in conditions

A condition compares a property with a scalar or with a list of scalars. A scalar read from JSON
is never a date: a text stays a text. Whole numbers beyond 63 bits become doubles.
-/

namespace StoreQuery

/-- A single value to compare with. `null` also stands for a value that is not there. -/
inductive Scalar where
  | null
  | bool (value : Bool)
  | int (value : Int64)
  | float (value : Double)
  | text (value : String)
  | date (value : Timestamp)
  deriving DecidableEq

/-- What an operator compares with. -/
inductive Operand where
  | one (value : Scalar)
  | many (values : List Scalar)
  deriving DecidableEq

namespace Scalar

def isNull : Scalar → Bool
  | .null => true
  | _ => false

/-- Text of the value, as it goes into patterns. -/
def toText : Scalar → String
  | .null => ""
  | .bool true => "true"
  | .bool false => "false"
  | .int i => Text.ofInt i.toInt
  | .float x => x.toText
  | .text s => s
  | .date t => t.offsetText

/-- A number as a scalar. -/
def ofNumber : Number → Scalar
  | .whole n =>
    match n.toInt64? with
    | some i => .int i
    | none => .float (.ofInt n.val)
  | .double x => .float x

/-- The scalar of a JSON value; arrays and objects are none. -/
def ofJson? : Json → Option Scalar
  | .null => some .null
  | .bool b => some (.bool b)
  | .num n => some (ofNumber n)
  | .str s => some (.text s)
  | .arr _ | .obj _ => none

/-- The JSON value of a scalar, with dates in the offset form. -/
def toJson : Scalar → Json
  | .null => .null
  | .bool b => .bool b
  | .int i => .ofInt64 i
  | .float x => .ofDouble x
  | .text s => .str s
  | .date t => .str t.offsetText

/-- The JSON value under which a scalar is stored, with dates in the zone form. -/
def encode : Scalar → Json
  | .date t => .str t.zoneText
  | scalar => scalar.toJson

end Scalar

namespace Operand

instance : Inhabited Operand := ⟨.one .null⟩

def asScalar? : Operand → Option Scalar
  | .one s => some s
  | .many _ => none

def asList? : Operand → Option (List Scalar)
  | .one _ => none
  | .many values => some values

/-- A JSON scalar, or an array of JSON scalars. -/
def ofJson? : Json → Option Operand
  | .arr items => (items.mapM Scalar.ofJson?).map .many
  | value => (Scalar.ofJson? value).map .one

def toJson : Operand → Json
  | .one s => s.toJson
  | .many values => .arr (values.map Scalar.toJson)

/-- The JSON value under which an operand is stored. -/
def encode : Operand → Json
  | .one s => s.encode
  | .many values => .arr (values.map Scalar.encode)

end Operand

end StoreQuery
