import StoreQuery.Dict
import StoreQuery.Json.Fields
import StoreQuery.Json.Text
import StoreQuery.Scalar

/-!
# Typed attributes

A key-value store keeps a type with every value. An attribute is written as an object with one
member, whose name is the type: `S` text, `N` a number as text, `BOOL`, `NULL`, `L` a list, and
`M` a map. An item is a dictionary of attributes, and so is a map inside it: what is given in
another order, or with a key twice, is read as the map in the order of the keys, in which the last
value of a key counts.
-/

namespace StoreQuery.KeyValue

/-- A typed value. A map has its keys in their order, each once, and a value for each of them. -/
inductive Attribute where
  | text (value : String)
  | number (digits : String)
  | bool (value : Bool)
  | null (value : Bool)
  | list (items : List Attribute)
  | map (keys : List String) (sorted : keys.Pairwise (· < ·))
      (value : Fin keys.length → Attribute)

/-- A stored item. -/
abbrev Item := Dict Attribute

namespace Attribute

/-! ## Maps -/

/-- The map with the entries of a dictionary. -/
def ofDict (d : Dict Attribute) : Attribute :=
  .map d.keys (List.pairwise_map.2 d.sorted) fun i =>
    (d.entries.get (i.cast (List.length_map _))).2

/-- Keys with what belongs to each of them. -/
def entriesOf {α : Type} (keys : List String) (value : Fin keys.length → α) : List (String × α) :=
  List.ofFn fun i => (keys.get i, value i)

/-! ## Plain JSON -/

mutual

/-- The attribute of a plain JSON value. -/
def ofJson : Json → Attribute
  | .null => .null true
  | .bool b => .bool b
  | .num n => .number n.toText
  | .str s => .text s
  | .arr items => .list (ofItems items)
  | .obj members => .ofDict (.ofList (ofMembers members))

def ofItems : List Json → List Attribute
  | [] => []
  | value :: rest => ofJson value :: ofItems rest

def ofMembers : List (String × Json) → List (String × Attribute)
  | [] => []
  | (name, value) :: rest => (name, ofJson value) :: ofMembers rest

end

/-- The JSON value of a number given as text: a whole number if it is one of 64 bits with sign,
else the nearest double, else the text. -/
def numberOf (digits : String) : Json :=
  match Text.signed? digits with
  | some i => .ofInt64 i
  | none =>
    match Double.ofText? digits with
    | some x => if x.isFinite then .ofDouble x else .str digits
    | none => .str digits

mutual

/-- The plain JSON value of an attribute. -/
def toJson : Attribute → Json
  | .text s => .str s
  | .number digits => numberOf digits
  | .bool b => .bool b
  | .null _ => .null
  | .list items => .arr (toItems items)
  | .map keys _ value => .obj (entriesOf keys fun i => toJson (value i))

def toItems : List Attribute → List Json
  | [] => []
  | a :: rest => toJson a :: toItems rest

end

/-- The attribute of a scalar. -/
def ofScalar : Scalar → Attribute
  | .null => .null true
  | .bool b => .bool b
  | .int i => .number (Text.ofInt i.toInt)
  | .float x => .number x.toText
  | .text s => .text s
  | .date t => .text t.offsetText

/-! ## Typed JSON -/

mutual

/-- The JSON value that shows the type of an attribute. -/
def encode : Attribute → Json
  | .text s => .obj [("S", .str s)]
  | .number digits => .obj [("N", .str digits)]
  | .bool b => .obj [("BOOL", .bool b)]
  | .null b => .obj [("NULL", .bool b)]
  | .list items => .obj [("L", .arr (encodeItems items))]
  | .map keys _ value => .obj [("M", .obj (entriesOf keys fun i => encode (value i)))]

def encodeItems : List Attribute → List Json
  | [] => []
  | a :: rest => encode a :: encodeItems rest

end

mutual

/-- Reads a typed value. -/
def decode? : Json → Option Attribute
  | .obj [(type, value)] => decodeAs? type value
  | _ => none

/-- Reads the value of a type. -/
def decodeAs? (type : String) : Json → Option Attribute
  | .str s => if type = "S" then some (.text s) else if type = "N" then some (.number s) else none
  | .bool b =>
    if type = "BOOL" then some (.bool b) else if type = "NULL" then some (.null b) else none
  | .arr items => if type = "L" then (decodeItems? items).map .list else none
  | .obj members =>
    if type = "M" then (decodeEntries? members).map fun entries => .ofDict (.ofList entries)
    else none
  | _ => none

/-- Reads typed values that are all readable. -/
def decodeItems? : List Json → Option (List Attribute)
  | [] => some []
  | value :: rest => do
    let a ← decode? value
    let items ← decodeItems? rest
    some (a :: items)

/-- Reads named typed values that are all readable. -/
def decodeEntries? : List (String × Json) → Option (List (String × Attribute))
  | [] => some []
  | (name, value) :: rest => do
    let a ← decode? value
    let entries ← decodeEntries? rest
    some ((name, a) :: entries)

end

end Attribute

namespace Item

/-- The JSON value of an item, with the types of its attributes. -/
def encode (item : Item) : Json := .obj (item.mapValues Attribute.encode).entries

def decode? : Json → Option Item
  | .obj members => (Attribute.decodeEntries? members).map Dict.ofList
  | _ => none

/-- The item of a plain JSON object. -/
def ofMembers (members : Json.Members) : Item := .ofList (Attribute.ofMembers members)

/-- The plain JSON object of an item. -/
def toJson (item : Item) : Json := .obj (item.mapValues Attribute.toJson).entries

end Item

end StoreQuery.KeyValue
