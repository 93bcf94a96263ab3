import StoreQuery.Config.Basic
import StoreQuery.Json.Fields
import StoreQuery.Yaml.Node

/-!
# Reading configurations

A configuration is read from JSON or from YAML by the same rules: what is left out has its
default, and what is not known does not matter. A `Source` says how the values of a format are
looked at. The two differ in little: YAML reads any scalar as a text, needs a plain one for
numbers, truth values and null unless a tag says more, follows references, and does not take a
list for a record.
-/

namespace StoreQuery.Config

/-- How the values of a format are looked at. -/
structure Source (ν : Type) where
  /-- The values of the fields of a record. -/
  fields? : List Json.Field → ν → Option (List (Option ν))
  entries? : ν → Option (List (String × ν))
  items? : ν → Option (List ν)
  text? : ν → Option String
  word? : ν → Option UInt64
  bool? : ν → Option Bool
  /-- The name of one of several choices. -/
  choice? : ν → Option String
  /-- The value itself, or none for null. -/
  nullable? : ν → Option (Option ν)

/-! ## JSON -/

def jsonEntries? : Json → Option (List (String × Json))
  | .obj members => some members
  | _ => none

def jsonItems? : Json → Option (List Json)
  | .arr items => some items
  | _ => none

/-- Values of JSON. -/
def jsonSource : Source Json where
  fields? := Json.fields?
  entries? := jsonEntries?
  items? := jsonItems?
  text? := Json.asText?
  word? := Json.word?
  bool? := Json.bool?
  choice? := Json.choice? some
  nullable? value := some (if value.isNull then none else some value)

/-! ## YAML -/

/-- The plain scalars that mean null. -/
def isNullText (text : String) : Bool := ["", "~", "null", "Null", "NULL"].contains text

/-- The value of a digit in a base of at most 16. -/
def digitOf? (base : Nat) (c : Char) : Option Nat :=
  (Json.hexValue? c).filter (· < base)

/-- Reads digits of a base as a number of 64 bits; there must be one. -/
def digitsOf? (base : Nat) (cs : List Char) : Option UInt64 :=
  match cs.mapM (digitOf? base) with
  | some (d :: ds) =>
    let n := (d :: ds).foldl (fun value digit => value * base + digit) 0
    if n < UInt64.size then some (UInt64.ofNat n) else none
  | _ => none

/-- Reads a plain scalar as a number without sign, in base 10, or 16, 8 or 2 with a mark in
front. Further digits behind a zero make a text. -/
def yamlWord? (text : String) : Option UInt64 :=
  let cs := match text.toList with
    | '+' :: cs => cs
    | cs => cs
  match cs with
  | '0' :: 'x' :: cs => digitsOf? 16 cs
  | '0' :: 'o' :: cs => digitsOf? 8 cs
  | '0' :: 'b' :: cs => digitsOf? 2 cs
  | '0' :: _ :: _ => none
  | cs => digitsOf? 10 cs

def yamlBool? (text : String) : Option Bool :=
  if ["true", "True", "TRUE"].contains text then some true
  else if ["false", "False", "FALSE"].contains text then some false
  else none

/-- The tag of null. -/
def nullTag : Yaml.Tag := ⟨some "tag:yaml.org,2002:null"⟩

/-- The tag of truth values. -/
def boolTag : Yaml.Tag := ⟨some "tag:yaml.org,2002:bool"⟩

/-- The tag of whole numbers. -/
def intTag : Yaml.Tag := ⟨some "tag:yaml.org,2002:int"⟩

/-- The text of a scalar. -/
def yamlText? : Yaml.Node → Option String
  | .scalar _ _ text => some text
  | _ => none

/-- The text of a scalar that can be more than text: one that is plain, or a block of lines with a
tag that says so. -/
def bareText? (tag : Yaml.Tag) : Yaml.Node → Option String
  | .scalar .plain _ text => some text
  | .scalar .literal found text => if found = some tag then some text else none
  | _ => none

/-- The entries of a mapping, whose keys must be scalars; nothing at all counts as an empty one. -/
def yamlEntries? (document : Yaml.Document) : Yaml.Node → Option (List (String × Yaml.Node))
  | .mapping _ entries => entries.mapM fun (key, value) =>
    (yamlText? (document.resolve key)).map fun key => (key, value)
  | .scalar .plain _ "" => some []
  | _ => none

/-- The items of a sequence; nothing at all counts as an empty one. -/
def yamlItems? : Yaml.Node → Option (List Yaml.Node)
  | .sequence _ items => some items
  | .scalar .plain _ "" => some []
  | _ => none

/-- The values of the fields of a record, none of which may be given twice. -/
def yamlFields? (document : Yaml.Document) (fields : List Json.Field) (node : Yaml.Node) :
    Option (List (Option Yaml.Node)) :=
  (yamlEntries? document node).bind fun entries =>
    if fields.all fun field => (entries.filter fun e => e.1 = field.name).length ≤ 1 then
      some (fields.map fun field => entries.lookup field.name)
    else none

/-- The name that a tag of the document's own has, without its mark. -/
def localName? (tag : Yaml.Tag) : Option String :=
  tag.text?.bind fun text => match text.toList with
    | ['!'] => some "!"
    | '!' :: name => some (String.ofList name)
    | _ => none

/-- The name of one of several choices: a scalar, or the tag of nothing. -/
def yamlChoice? : Yaml.Node → Option String
  | .scalar style tag text =>
    match tag.bind localName? with
    | some name => if style = .plain ∧ isNullText text then some name else none
    | none => some text
  | _ => none

/-- A value that is not null, if it is none. A tag can rule out null, and a tag can call for it. -/
def yamlNullable? (node : Yaml.Node) : Option (Option Yaml.Node) :=
  match node with
  | .scalar .plain none text => if isNullText text then some none else some (some node)
  | .scalar .plain (some tag) text =>
    if tag ≠ nullTag then some (some node)
    else if isNullText text ∧ text ≠ "" then some none
    else none
  | _ => some (some node)

/-- Values of a YAML document. -/
def yamlSource (document : Yaml.Document) : Source Yaml.Node where
  fields? fields node := yamlFields? document fields (document.resolve node)
  entries? node := yamlEntries? document (document.resolve node)
  items? node := yamlItems? (document.resolve node)
  text? node := yamlText? (document.resolve node)
  word? node := (bareText? intTag (document.resolve node)).bind yamlWord?
  bool? node := (bareText? boolTag (document.resolve node)).bind yamlBool?
  choice? node := yamlChoice? (document.resolve node)
  nullable? node := yamlNullable? (document.resolve node)

/-! ## Records -/

namespace Source

variable {ν : Type} (s : Source ν)

/-- Reads a value that may be null or left out. -/
def optional? {α : Type} (read? : ν → Option α) (value : Option ν) : Option (Option α) :=
  Json.withDefault? none (fun v => (s.nullable? v).bind fun
    | none => some none
    | some v => (read? v).map some) value

/-- Reads one of several choices. -/
def named? {α : Type} (ofName? : String → Option α) (value : ν) : Option α :=
  (s.choice? value).bind ofName?

/-- Reads a list whose items are all readable. -/
def list? {α : Type} (read? : ν → Option α) (value : ν) : Option (List α) :=
  (s.items? value).bind fun items => items.mapM read?

/-- Reads a dictionary whose values are all readable. -/
def dict? {α : Type} (read? : ν → Option α) (value : ν) : Option (Dict α) := do
  let entries ← s.entries? value
  let read ← entries.mapM fun (key, value) => (read? value).map fun a => (key, a)
  return Dict.ofList read

/-- Reads the fields of a record that may all be left out. -/
def record? (names : List String) (value : ν) : Option (List (Option ν)) :=
  s.fields? (names.map Json.Field.spare) value

def policies? (value : ν) : Option Sql.Policies := do
  let base : Sql.Policies := {}
  match ← s.record? ["select", "order", "where", "relations"] value with
  | [select, order, condition, relations] =>
    some {
      select := ← Json.withDefault? base.select (s.named? Sql.Policy.ofName?) select
      order := ← Json.withDefault? base.order (s.named? Sql.Policy.ofName?) order
      condition := ← Json.withDefault? base.condition (s.named? Sql.Policy.ofName?) condition
      relations := ← Json.withDefault? base.relations (s.named? Sql.Policy.ofName?) relations }
  | _ => none

def entity? (value : ν) : Option Sql.EntitySettings := do
  match ← s.record? ["table", "columns", "relations"] value with
  | [table, columns, relations] =>
    some {
      table := ← s.optional? s.text? table
      columns := ← Json.withDefault? [] (s.list? s.text?) columns
      relations := ← Json.withDefault? .empty (s.dict? s.text?) relations }
  | _ => none

def entities? (value : ν) : Option (Dict Sql.EntitySettings) := s.dict? s.entity? value

def sql? (value : ν) : Option Sql.Settings := do
  match ← s.record? ["case_insensitive_like", "invalid_fields", "entities"] value with
  | [iLike, policies, entities] =>
    some {
      iLike := ← s.optional? s.bool? iLike
      policies := ← Json.withDefault? {} s.policies? policies
      entities := ← Json.withDefault? .empty s.entities? entities }
  | _ => none

def document? (value : ν) : Option Document.Settings := do
  match ← s.record? ["disable_count"] value with
  | [disableCount] => some { disableCount := ← Json.withDefault? false s.bool? disableCount }
  | _ => none

def table? (value : ν) : Option KeyValue.Table := do
  match ← s.record? ["table_name", "partition_key", "sort_key", "disable_count",
      "disable_scan"] value with
  | [name, partitionKey, sortKey, disableCount, disableScan] =>
    some {
      tableName := ← Json.withDefault? "" s.text? name
      partitionKey := ← Json.withDefault? "" s.text? partitionKey
      sortKey := ← s.optional? s.text? sortKey
      disableCount := ← Json.withDefault? false s.bool? disableCount
      disableScan := ← Json.withDefault? false s.bool? disableScan }
  | _ => none

def limits? (value : ν) : Option Limits := do
  match ← s.record? ["default_limit", "max_limit"] value with
  | [default, max] =>
    some { default := ← s.optional? s.word? default, max := ← s.optional? s.word? max }
  | _ => none

def logLevel? (value : ν) : Option LogLevel := do
  match ← s.record? ["level"] value with
  | [level] => Json.withDefault? .info (s.named? LogLevel.ofName?) level
  | _ => none

/-- Reads a configuration. The debug mode is not part of what is read. -/
def config? (value : ν) : Option Config := do
  match ← s.record? ["sql", "mongo", "dynamodb", "parser", "logging"] value with
  | [sql, document, table, limits, logging] =>
    some {
      sql := ← Json.withDefault? {} s.sql? sql
      document := ← Json.withDefault? {} s.document? document
      table := ← s.optional? s.table? table
      limits := ← Json.withDefault? {} s.limits? limits
      logLevel := ← Json.withDefault? .info s.logLevel? logging }
  | _ => none

end Source

/-- Reads a configuration from the text of a file. -/
def ofYaml (text : String) : Except Error Config :=
  match (Yaml.Document.ofText? text).bind fun document =>
    (yamlSource document).config? document.root with
  | some config => .ok config
  | none => .error (.config (.badYaml text))

end StoreQuery.Config
