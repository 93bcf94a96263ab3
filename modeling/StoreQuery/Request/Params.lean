import StoreQuery.Condition.Filter
import StoreQuery.Dict
import StoreQuery.Json.Read
import StoreQuery.Request.Basic

/-!
# Requests from parameters

A request can be given by named parameters, each with one or several values:

- `fields`, or `select` without it: names of properties with commas between them;
- `join`: a relation, or a relation and the names to select from it, as `author||id,name`;
- `sort`: a property and a direction, as `age,DESC`;
- `s`: a search condition, or without it `filter` and `or`: filter items;
- `limit`, `offset`, `page`: numbers.

What cannot be read is left out, except the condition: its errors are those of the request.
-/

namespace StoreQuery

/-- The values of each parameter, in the order in which they were given. -/
abbrev Params := Dict (List String)

namespace Params

/-- The values of a parameter. -/
def values (params : Params) (key : String) : List String := (params.find? key).getD []

/-- The first value of a parameter. -/
def first? (params : Params) (key : String) : Option String := (params.values key).head?

/-- Gives a parameter one more value. -/
def add (params : Params) (key value : String) : Params :=
  params.insert key (params.values key ++ [value])

/-- Collects pairs of a key and a value. -/
def ofPairs (pairs : List (String × String)) : Params :=
  pairs.foldl (fun params (key, value) => params.add key value) .empty

end Params

namespace Request

/-- The parts between commas, without the empty ones. -/
def names (text : String) : List String := (Text.split ',' text).filter (· ≠ "")

/-- The properties that one value of `fields` names. -/
def selectOf (value : String) : List Path := (names value).map .ofText

/-- A relation and what is selected from it. -/
structure Joined where
  path : Path
  select : List Path

/-- The relation that one value of `join` names. -/
def joinedOf? (value : String) : Option Joined :=
  let (field, select) := (Text.cutAt FilterItem.separator value).getD (value, "")
  if field = "" then none
  else
    let path := Path.ofText field
    some ⟨path, (names select).map path.child⟩

/-- The sort key that one value of `sort` names. -/
def orderOf? (value : String) : Option Order :=
  let (field, direction) := match Text.cutAt "," value with
    | some (field, direction) => (field, Direction.ofText? direction)
    | none => (value, none)
  if field = "" then none else some ⟨.ofText field, direction.getD .ascending⟩

/-- The number that a parameter gives. -/
def numberOf? (params : Params) (key : String) : Option UInt64 :=
  (params.first? key).bind fun text => Text.word? (Text.trim text)

/-- The step that adds the condition of the parameters to the root. -/
def addCondition (params : Params) : Builder.Step Unit :=
  match (params.first? "s").filter (· ≠ "") with
  | some text =>
    match Json.read? text with
    | some value => Builder.addSearch Builder.root .root value
    | none => throw (.parse (.badSearch text))
  | none => Builder.addFilters Builder.root (params.values "filter") (params.values "or")

/-- The condition of the parameters. -/
def conditionOf (params : Params) : Except Error Condition :=
  match (addCondition params).run .empty with
  | .ok () builder => .ok builder.build
  | .error e _ => .error e

/-- The request that parameters describe. -/
def ofParams (params : Params) : Except Error Request := do
  let fields := (params.find? "fields").getD (params.values "select")
  let joined := (params.values "join").filterMap joinedOf?
  let condition ← conditionOf params
  return {
    select := fields.flatMap selectOf ++ joined.flatMap (·.select)
    relations := joined.map fun j => ⟨j.path, none⟩
    order := (params.values "sort").filterMap orderOf?
    condition
    limit := numberOf? params "limit"
    offset := numberOf? params "offset"
    page := numberOf? params "page" }

end Request

end StoreQuery
