import StoreQuery.Condition.Compiler
import StoreQuery.KeyValue.Query
import StoreQuery.Request.Basic

/-!
# Requests for a key-value store

A request becomes a read of a key-value store. Leaves that no OR stands above and that fix the
partition key, or constrain the sort key, can be taken out of the condition and used as the key:

- with both keys fixed, or the only one, and nothing else to filter by, the read is a lookup;
- with the partition key fixed, it is a query of the partition with a key condition;
- otherwise it is a scan, and every leaf stays in the filter.

A base that already is a lookup stays one: leaves on its keys replace them, and any other leaf is
refused. A base that already is a query keeps its key condition. Offsets do not exist here.
-/

namespace StoreQuery.KeyValue

/-- A table and what may be done with it. -/
structure Table where
  tableName : String := ""
  partitionKey : String := ""
  sortKey : Option String := none
  disableScan : Bool := false
  disableCount : Bool := false
  deriving DecidableEq, Repr

namespace Table

def partitionPath (t : Table) : Path := .ofText t.partitionKey

def sortPath (t : Table) : Option Path := t.sortKey.map .ofText

end Table

/-- The store as errors name it. -/
def storeName : String := "dynamodb"

/-- Key parts taken out of a condition: the value of the partition key, and the leaf on the sort
key. -/
structure Keys where
  partition : Option Scalar := none
  sort : Option Comparison := none

/-- What is gathered while a condition is compiled. -/
structure Progress where
  query : Query
  keys : Keys := {}

/-! ## Operands -/

/-- A step that changes a query. -/
abbrev Step := EStateM Error Query

def single (c : Comparison) : Step Scalar :=
  match c.value.asScalar? with
  | some scalar => pure scalar
  | none => throw (c.operator.fault .notSingle)

def many (c : Comparison) : Step (List Scalar) :=
  match c.value.asList? with
  | some scalars => pure scalars
  | none => throw (c.operator.fault .notList)

/-- Makes a token stand for a property. -/
def nameOf (path : Path) : Step String := modifyGet fun q => q.registerName path

/-- Binds a free token to a value. -/
def valueOf (path : Path) (scalar : Scalar) : Step String :=
  modifyGet fun q => q.registerValue path scalar

def bindValue (name : String) (scalar : Scalar) : Step Unit :=
  modify fun q => q.bind name (.ofScalar scalar)

/-- Binds the token of null. -/
def nullValue : Step String := do
  modify Query.bindNull
  pure Query.nullToken

/-! ## Leaves -/

/-- A property between two bounds that are bound under a token. -/
def betweenExpression (name token : String) (c : Comparison) : Step String := do
  match ← many c with
  | [low, high] =>
    bindValue (Query.Binding.startOf token) low
    bindValue (Query.Binding.endOf token) high
    pure (name ++ " BETWEEN " ++ Query.Binding.startOf token ++ " AND "
      ++ Query.Binding.endOf token)
  | _ => throw (c.operator.fault .notBounds)

/-- Binds the items of a list under a token, from a given index on. -/
def bindItems (token : String) (index : Nat) : List Scalar → Step (List String)
  | [] => pure []
  | scalar :: rest => do
    bindValue (Query.Binding.itemOf token index) scalar
    let names ← bindItems token (index + 1) rest
    pure (Query.Binding.itemOf token index :: names)

/-- A property in a list whose items are bound under a free token. -/
def inExpression (name : String) (c : Comparison) : Step String := do
  let scalars ← many c
  let q ← get
  let token := q.valueToken c.path (.list scalars.length)
  let items ← bindItems token 0 scalars
  pure (name ++ " IN (" ++ Text.join ", " items ++ ")")

/-- A property and a value with a symbol between them. -/
def compareExpression (name symbol : String) (c : Comparison) : Step String := do
  let scalar ← single c
  let token ← valueOf c.path scalar
  pure (name ++ " " ++ symbol ++ " " ++ token)

/-- A function of a property and a value. -/
def callExpression (function name : String) (c : Comparison) : Step String := do
  let scalar ← single c
  let token ← valueOf c.path scalar
  pure (function ++ "(" ++ name ++ ", " ++ token ++ ")")

/-- The expression of a comparison. The store does not know the ends of texts, nor case. -/
def leafExpression (c : Comparison) : Step String := do
  let name ← nameOf c.path
  match c.operator with
  | .eq => compareExpression name "=" c
  | .neq => compareExpression name "<>" c
  | .lt => compareExpression name "<" c
  | .lte => compareExpression name "<=" c
  | .gt => compareExpression name ">" c
  | .gte => compareExpression name ">=" c
  | .starts => callExpression "begins_with" name c
  | .contains => callExpression "contains" name c
  | .notContains => do
    let call ← callExpression "contains" name c
    pure ("NOT " ++ call)
  | .between => do
    let q ← get
    betweenExpression name (q.valueToken c.path .range) c
  | .isIn => inExpression name c
  | .notIn => do
    let membership ← inExpression name c
    pure ("NOT (" ++ membership ++ ")")
  | .isNull => do
    let null ← nullValue
    pure ("(attribute_not_exists(" ++ name ++ ") OR " ++ name ++ " = " ++ null ++ ")")
  | .notNull => do
    let null ← nullValue
    pure ("(attribute_exists(" ++ name ++ ") AND " ++ name ++ " <> " ++ null ++ ")")
  | .ends | .eqLower | .neqLower | .startsLower | .endsLower | .containsLower
  | .notContainsLower | .inLower | .notInLower =>
    throw (.unsupported c.operator.name storeName)

/-! ## Conditions -/

/-- Whether a sort key can be constrained by an operator. -/
def constrainsSortKey : Operator → Bool
  | .eq | .lt | .lte | .gt | .gte | .between | .starts => true
  | _ => false

/-- Takes a leaf as a part of the key, if it is the first of its kind. -/
def takeKey? (t : Table) (keys : Keys) (c : Comparison) : Option Keys :=
  if c.path = t.partitionPath ∧ c.operator = .eq ∧ keys.partition = none
      ∧ c.value.asScalar?.isSome then
    some { keys with partition := c.value.asScalar? }
  else if t.sortPath = some c.path ∧ constrainsSortKey c.operator ∧ keys.sort.isNone then
    some { keys with sort := some c }
  else none

/-- Runs a step on the query that is gathered. -/
def onQuery {α : Type} (step : Step α) : EStateM Error Progress α := fun progress =>
  match step progress.query with
  | .ok a query => .ok a { progress with query }
  | .error e query => .error e { progress with query }

/-- Compiles a leaf: a part of the key if those are split off, otherwise an expression. -/
def compileLeaf (t : Table) (split : Bool) (c : Comparison) (scope : Scope) :
    EStateM Error Progress (Option String) := do
  match c.validate with
  | .error e => throw e
  | .ok () =>
    let progress ← get
    match if split && scope.topLevelAnd then takeKey? t progress.keys c else none with
    | some keys =>
      set { progress with keys }
      pure none
    | none => do
      let expression ← onQuery (leafExpression c)
      pure (some expression)

/-- Joins expressions. Parentheses are left out around the whole condition. -/
def joinExpressions (k : Connective) (expressions : List String) (scope : Scope) : String :=
  let joined := Text.join (" " ++ k.text ++ " ") expressions
  if 0 < scope.depth then "(" ++ joined ++ ")" else joined

/-- Compiles conditions to filter expressions. -/
def compiler (t : Table) (split : Bool) : Compiler Progress String where
  leaf := compileLeaf t split
  join k expressions scope progress := (joinExpressions k expressions scope, progress)

/-! ## Requests -/

/-- Names the table where the base does not. -/
def withTable (t : Table) (q : Query) : Query :=
  if q.tableName = "" then { q with tableName := t.tableName } else q

/-- Registers properties one after the other and gives their tokens. -/
def registerNames (q : Query) : List Path → List String × Query
  | [] => ([], q)
  | path :: rest =>
    let (token, q) := q.registerName path
    let (tokens, q) := registerNames q rest
    (token :: tokens, q)

/-- Projects to the selected properties, if any are selected. -/
def withProjection (q : Query) (select : List Path) : Query :=
  if select.isEmpty then q
  else
    let (tokens, q) := registerNames q select
    q.addProjection tokens

/-- Takes over a limit that is not zero. -/
def withLimit (q : Query) (limit : Option UInt64) : Query :=
  match limit with
  | some limit => if 0 < limit then { q with limit := some limit } else q
  | none => q

/-- Adds the projection, the filter and the limit of a request to a base, and gathers key parts if
they are split off. -/
def compilePass (t : Table) (base : Query) (r : Request) (split : Bool) :
    Except Error Progress :=
  let start : Progress := { query := withProjection (withTable t base) r.select }
  match ((compiler t split).compile r.condition).run start with
  | .error e _ => .error e
  | .ok filter progress =>
    let query := match filter with
      | some expression => progress.query.addFilter expression
      | none => progress.query
    .ok { progress with query := withLimit query r.limit }

/-- The direction of the sort key, if the request sorts by it. -/
def withOrder (t : Table) (q : Query) (r : Request) : Query :=
  match r.order.find? fun o => some o.path == t.sortPath with
  | some o => { q with scanForward := some (o.direction == .ascending) }
  | none => q

/-- Sets an attribute of a key, if there is a value. -/
def setKey (key : Item) (field : Option String) (value : Option Scalar) : Item :=
  match field, value with
  | some field, some scalar => key.insert field (.ofScalar scalar)
  | _, _ => key

/-- The scalar of the leaf on the sort key. -/
def Keys.sortScalar (keys : Keys) : Option Scalar :=
  keys.sort.bind fun c => c.value.asScalar?

/-- The condition on the sort key in a key condition. -/
def sortCondition (c : Comparison) : Step String := do
  let name ← nameOf c.path
  match c.operator with
  | .eq => compareExpression name "=" c
  | .lt => compareExpression name "<" c
  | .lte => compareExpression name "<=" c
  | .gt => compareExpression name ">" c
  | .gte => compareExpression name ">=" c
  | .between => do
    let q ← get
    betweenExpression name (q.valueToken c.path .range) c
  | .starts => callExpression "begins_with" name c
  | other => throw (.unsupported other.name storeName)

/-- The key condition of key parts. -/
def keyCondition (t : Table) (partition : Scalar) (keys : Keys) : Step String := do
  let name ← nameOf t.partitionPath
  let value ← valueOf t.partitionPath partition
  let first := name ++ " = " ++ value
  match keys.sort with
  | none => pure first
  | some c => do
    let second ← sortCondition c
    pure (Text.join " AND " [first, second])

/-- A lookup base stays a lookup. Leaves on the keys replace them; a leaf beyond them is
refused. -/
def buildPinned (t : Table) (base : Query) (r : Request) : Except Error Query := do
  let ⟨q, keys⟩ ← compilePass t base r true
  if q.filter ≠ base.filter ∨ keys.sort.any (fun c => c.operator != .eq) then
    throw (.invalidState .beyondKey)
  let key := setKey (q.key.getD .empty) (some t.partitionKey) keys.partition
  return { q with key := some (setKey key t.sortKey keys.sortScalar), limit := none }

/-- Whether key parts name one item. -/
def namesOneItem (t : Table) (keys : Keys) : Bool :=
  match t.sortPath, keys.sort with
  | none, _ => true
  | some _, some c => c.operator == .eq
  | some _, none => false

/-- A base without keys becomes a lookup, a query or a scan. -/
def buildFree (t : Table) (base : Query) (r : Request) : Except Error Query := do
  let ⟨q, keys⟩ ← compilePass t base r true
  match keys.partition with
  | none =>
    if keys.sort.isNone then return q
    let whole ← compilePass t base r false
    return whole.query
  | some partition =>
    if namesOneItem t keys && q.filter.isNone then
      let key := setKey .empty (some t.partitionKey) (some partition)
      return { q with
        key := some (setKey key (keys.sort.map (·.path.toText)) keys.sortScalar)
        limit := none }
    match (keyCondition t partition keys).run q with
    | .error e _ => throw e
    | .ok condition q => return withOrder t { q with keyCondition := some condition } r

/-- The read that a request is, starting from a base. -/
def build (t : Table) (base : Query) (r : Request) : Except Error Query :=
  match base.kind with
  | .getItem => buildPinned t base r
  | .query => (compilePass t base r false).map fun progress => withOrder t progress.query r
  | .scan => buildFree t base r

end StoreQuery.KeyValue
