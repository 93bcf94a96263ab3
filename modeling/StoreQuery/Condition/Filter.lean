import StoreQuery.Condition.Search

/-!
# Filter items

Besides search conditions there are lists of filter items. An item is a path, an operator token
and a value with `||` between them. The value may be left out, and whatever follows the second
separator belongs to it. Items without a known operator say nothing.

The items of the first list all hold, of the second one holds. Where both lists have items, all of
the first or all of the second hold.
-/

namespace StoreQuery

/-- The three parts of a filter item. -/
structure FilterItem where
  path : String
  token : String
  value : Option String
  deriving DecidableEq, Repr

namespace FilterItem

/-- What stands between the parts. -/
def separator : String := "||"

/-- Takes an item apart; none if it has no separator. -/
def ofText? (text : String) : Option FilterItem :=
  (Text.cutAt separator text).map fun (path, rest) =>
    match Text.cutAt separator rest with
    | some (token, value) => ⟨path, token, some value⟩
    | none => ⟨path, rest, none⟩

/-- The value of an item for an operator: a list is cut at its commas. -/
def operand (op : Operator) (value : Option String) : Operand :=
  match op.shape, value with
  | .vacant, _ => .one .null
  | _, none => .one .null
  | .list, some text => .many ((Text.split ',' text).map .text)
  | .single, some text => .one (.text text)

end FilterItem

namespace Builder

/-- Adds a filter item to a bracket. -/
def addFilter (here : Nat) (text : String) : Step Unit :=
  match FilterItem.ofText? text with
  | none => pure ()
  | some item =>
    match Operator.ofToken? item.token with
    | none => pure ()
    | some op => addField here (.ofText item.path) op (FilterItem.operand op item.value)

/-- Adds filter items to a bracket one after the other. -/
def addFilterItems (here : Nat) (items : List String) : Step Unit :=
  items.forM (addFilter here)

/-- Adds two lists of filter items, of which all or one of the items hold. -/
def addFilters (here : Nat) (all some : List String) : Step Unit :=
  match all, some with
  | [], [] => pure ()
  | [], some => do
    let inside ← enter .or here
    addFilterItems inside some
  | all, [] => do
    let inside ← enter .and here
    addFilterItems inside all
  | all, some => do
    let either ← enter .or here
    let first ← enter .and either
    addFilterItems first all
    let second ← enter .and either
    addFilterItems second some

end Builder

end StoreQuery
