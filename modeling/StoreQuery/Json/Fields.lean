import StoreQuery.Json.Basic

/-!
# Records in JSON

A record is written as an object with a member per field, in which unknown members do not matter,
or as an array with the values of the fields in their order, which may stop early where the
remaining fields can be left out. `fields?` brings both forms to one value or none per field, and
the functions below it read that.
-/

namespace StoreQuery.Json

/-- A field of a record, and whether an array of values may stop before it. -/
structure Field where
  name : String
  last : Bool

/-- A field without which a record is not complete. -/
def Field.needed (name : String) : Field := ⟨name, false⟩

/-- A field that an array of values may leave out. -/
def Field.spare (name : String) : Field := ⟨name, true⟩

/-- The values of an array, field by field. -/
def listedFields? : List Field → List Json → Option (List (Option Json))
  | [], [] => some []
  | [], _ :: _ => none
  | field :: fields, [] =>
    if field.last then (listedFields? fields []).map (none :: ·) else none
  | _ :: fields, item :: items => (listedFields? fields items).map (some item :: ·)

/-- The values of the fields of a record, field by field. -/
def fields? (fields : List Field) : Json → Option (List (Option Json))
  | .obj members => some (fields.map fun field => members.lookup field.name)
  | .arr items => listedFields? fields items
  | _ => none

/-- Reads a value that has to be there. -/
def required? {ν α : Type} (read? : ν → Option α) (value : Option ν) : Option α :=
  value.bind read?

/-- Reads a value that has a default. -/
def withDefault? {ν α : Type} (default : α) (read? : ν → Option α) (value : Option ν) :
    Option α :=
  match value with
  | some value => read? value
  | none => some default

/-- Reads a value that may be null. -/
def nullable? {α : Type} (read? : Json → Option α) : Json → Option (Option α)
  | .null => some none
  | value => (read? value).map some

/-- Reads a value that may be null or left out. -/
def optional? {α : Type} (read? : Json → Option α) (value : Option Json) : Option (Option α) :=
  withDefault? none (nullable? read?) value

/-- Reads a number of 64 bits without sign. -/
def word? : Json → Option UInt64
  | .num (.whole n) => n.toUInt64?
  | _ => none

def bool? : Json → Option Bool
  | .bool b => some b
  | _ => none

/-- Reads an array whose items are all readable. -/
def list? {α : Type} (read? : Json → Option α) : Json → Option (List α)
  | .arr items => items.mapM read?
  | _ => none

/-- Reads the name of one of several choices: a text, or an object with that one member, null. -/
def choice? {α : Type} (named? : String → Option α) : Json → Option α
  | .str name => named? name
  | .obj [(name, .null)] => named? name
  | _ => none

end StoreQuery.Json
