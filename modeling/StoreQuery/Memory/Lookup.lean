import StoreQuery.Json.Basic
import StoreQuery.Path
import StoreQuery.Scalar

/-!
# Documents

A document is a JSON value. A path leads from an object to the member that its first segment
names, and on from there; a value that is no object has no members. Values of one type can be
compared: numbers by the doubles nearest to them, texts by their characters, and `false` comes
before `true`.
-/

namespace StoreQuery.Json

/-! ## Paths -/

/-- The value at the end of a list of member names. -/
def at? : List String → Json → Option Json
  | [], value => some value
  | name :: rest, value => (value.get? name).bind (at? rest)

/-- The value at a path. -/
def atPath? (value : Json) (path : Path) : Option Json := at? path.segments value

/-- The members of an object; anything else has none. -/
def membersOrNone : Json → Members
  | .obj members => members
  | _ => []

/-- Puts a value at the end of a list of member names. Values on the way that are no objects give
way to objects. Without a name nothing changes. -/
def putAt : List String → Json → Members → Members
  | [], _, members => members
  | [name], value, members => setMember name value members
  | name :: rest, value, members =>
    let inner := membersOrNone ((members.lookup name).getD .null)
    setMember name (.obj (putAt rest value inner)) members

/-! ## Order -/

/-- The order of two values of one type. Arrays and objects have none. -/
def compare? : Json → Json → Option Ordering
  | .null, .null => some .eq
  | .num a, .num b => a.toDouble.compare? b.toDouble
  | .str a, .str b => some (compare a b)
  | .bool a, .bool b => some (compare a b)
  | _, _ => none

/-- The order of a value and a scalar. -/
def compareScalar? (value : Json) (scalar : Scalar) : Option Ordering :=
  compare? value scalar.toJson

end StoreQuery.Json
