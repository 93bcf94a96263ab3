import StoreQuery.Condition.Compiler
import StoreQuery.Request.Page
import StoreQuery.Sql.Query
import StoreQuery.Sql.Registry
import StoreQuery.Text.Numbered

/-!
# Requests for a relational store

A request becomes a select query. Every path in it is checked against the registry, and a policy
per clause says what happens to one that leads nowhere: it is ignored, it is an error, or it goes
through unchecked. A relation is joined under the alias of its parent with its own name behind it,
unless the request gives it an alias; columns are named through these aliases.

Values never become part of the statement. Each leaf gets parameters of its own, named after its
column with a number that is free.
-/

namespace StoreQuery.Sql

/-- What happens to a path that leads nowhere. -/
inductive Policy where
  | ignore
  | deny
  | allowUnsafe
  deriving DecidableEq, Repr

/-- The policy for each part of a query. -/
structure Policies where
  select : Policy := .ignore
  order : Policy := .ignore
  condition : Policy := .deny
  relations : Policy := .ignore
  deriving DecidableEq, Repr

/-- The parts of a query in which paths occur. -/
inductive Clause where
  | select
  | order
  | condition
  | relations
  deriving DecidableEq, Repr

/-- What a relational store is told about itself and its entities. -/
structure Settings where
  iLike : Option Bool := none
  policies : Policies := {}
  entities : Dict EntitySettings := .empty
  deriving DecidableEq

/-- Everything besides the request that a query depends on. -/
structure Schema where
  registry : Registry
  policies : Policies := {}
  iLike : Bool := false

namespace Policy

def all : List Policy := [ignore, deny, allowUnsafe]

def name : Policy → String
  | ignore => "ignore"
  | deny => "deny"
  | allowUnsafe => "allow-unsafe"

def ofName? (text : String) : Option Policy := all.find? fun p => p.name = text

end Policy

namespace Clause

def name : Clause → String
  | select => "select"
  | order => "order"
  | condition => "where"
  | relations => "relations"

/-- The policy for the clause. -/
def policy (p : Policies) : Clause → Policy
  | select => p.select
  | order => p.order
  | condition => p.condition
  | relations => p.relations

end Clause

/-- The schema of settings with a registry, for a dialect. Comparing without regard to case can be
switched on or off; otherwise it is used where the dialect has it. -/
def Settings.schema (s : Settings) (registry : Registry) (dialect : Dialect) : Schema :=
  ⟨registry, s.policies, s.iLike.getD dialect.hasILike⟩

/-! ## Paths -/

/-- Whether a path leads to what its clause is about. -/
def leads (schema : Schema) (entity : String) (path : Path) : Clause → Bool
  | .relations => schema.registry.isRelation entity path.segments
  | _ => schema.registry.isColumn entity path.segments

/-- Whether a path is taken into a clause, or the error that it is not. -/
def accepts (schema : Schema) (entity : String) (path : Path) (clause : Clause) :
    Except Error Bool :=
  if leads schema entity path clause then .ok true
  else match clause.policy schema.policies with
    | .allowUnsafe => .ok true
    | .deny => .error (.invalidField clause.name path.toText)
    | .ignore => .ok false

/-- The paths that are taken into a clause. -/
def accepted (schema : Schema) (entity : String) (clause : Clause) :
    List Path → Except Error (List Path)
  | [] => .ok []
  | path :: rest => do
    let taken ← accepts schema entity path clause
    let others ← accepted schema entity clause rest
    return if taken then path :: others else others

/-! ## Aliases -/

/-- The alias of the relation at a path: the main alias and the segments, with `_` between. -/
def aliasPath (main : String) (base : List String) : String := Text.join "_" (main :: base)

/-- The alias under which the columns of a base path are reached: the one that the request gives
to that relation, or else the one made from the path. -/
def fieldAlias (main : String) (relations : List Relation) (base : List String) : String :=
  if base.isEmpty then main
  else
    let relation := relations.find? fun r => r.path.segments == base
    (relation.bind (·.aliasName)).getD (aliasPath main base)

/-- A column under its alias. -/
def columnOf (q : Query) (relations : List Relation) (path : Path) : String :=
  fieldAlias q.aliasName relations path.base ++ "." ++ path.name

/-! ## Selections and joins -/

/-- Selects the columns of the main table that a request selects, if it selects anything. -/
def withSelect (schema : Schema) (r : Request) (q : Query) : Except Error Query :=
  if r.select.isEmpty then .ok q
  else
    (accepted schema q.entity .select (r.select.filter fun path => path.length = 1)).map
      fun paths => { q with selections := paths.map fun path => q.aliasName ++ "." ++ path.toText }

/-- Joins a relation, and selects its columns that the request selects or all of them. -/
def withRelation (schema : Schema) (r : Request) (q : Query) (relation : Relation) :
    Except Error Query := do
  if relation.path.isEmpty then return q
  if !(← accepts schema q.entity relation.path .relations) then return q
  let parent := aliasPath q.aliasName relation.path.base
  let name := relation.aliasName.getD (parent ++ "_" ++ relation.path.name)
  let paths ← accepted schema q.entity .select
    (r.select.filter fun path => path.hasBase relation.path.segments)
  let columns := paths.map fun path => name ++ "." ++ path.name
  return { q with
    selections := q.selections ++ if columns.isEmpty then [name] else columns
    joins := q.joins ++ [⟨parent ++ "." ++ relation.path.name, name, columns.isEmpty⟩] }

/-- Joins relations one after the other. -/
def withRelations (schema : Schema) (r : Request) (q : Query) : Except Error Query :=
  r.relations.foldlM (withRelation schema r) q

/-! ## Conditions -/

/-- The name of the parameters of a leaf: that of its column with the first free number. A name in
use rules out one number at most. -/
def parameterName (used bound : Dict Operand) (column : String) : String :=
  let name (n : Nat) : String := column ++ "_" ++ Text.ofNat n
  name <| Text.firstFrom (2 * (used.size + bound.size) + 1)
    (fun n => !Query.hasName used (name n) && !Query.hasName bound (name n)) 0

/-- Compares a column without regard to case with a pattern in a parameter. -/
def iLike (schema : Schema) (column word parameter : String) : String :=
  if schema.iLike then column ++ word ++ " ILIKE :" ++ parameter
  else "LOWER(" ++ column ++ ")" ++ word ++ " LIKE :" ++ parameter

/-- The condition of a leaf on a column, with its parameters under a name. -/
def leafText (schema : Schema) (op : Operator) (column parameter : String) : String :=
  match op with
  | .eq => column ++ " = :" ++ parameter
  | .neq => column ++ " != :" ++ parameter
  | .gt => column ++ " > :" ++ parameter
  | .gte => column ++ " >= :" ++ parameter
  | .lt => column ++ " < :" ++ parameter
  | .lte => column ++ " <= :" ++ parameter
  | .starts | .ends | .contains => column ++ " LIKE :" ++ parameter
  | .notContains => column ++ " NOT LIKE :" ++ parameter
  | .isIn => column ++ " IN (:..." ++ parameter ++ ")"
  | .notIn => column ++ " NOT IN (:..." ++ parameter ++ ")"
  | .between => column ++ " BETWEEN :" ++ parameter ++ "_start AND :" ++ parameter ++ "_end"
  | .isNull => column ++ " IS NULL"
  | .notNull => column ++ " IS NOT NULL"
  | .eqLower => "LOWER(" ++ column ++ ") = :" ++ parameter
  | .neqLower => "LOWER(" ++ column ++ ") != :" ++ parameter
  | .startsLower | .endsLower | .containsLower => iLike schema column "" parameter
  | .notContainsLower => iLike schema column " NOT" parameter
  | .inLower => "LOWER(" ++ column ++ ") IN (:..." ++ parameter ++ ")"
  | .notInLower => "LOWER(" ++ column ++ ") NOT IN (:..." ++ parameter ++ ")"

/-- The parameters of a leaf, under a name: the value itself, a pattern made from its text, or two
bounds. -/
def leafParameters (op : Operator) (value : Operand) (parameter : String) :
    List (String × Operand) :=
  let scalar := value.asScalar?.getD .null
  let text := scalar.toText
  let scalars := value.asList?.getD []
  match op with
  | .eq | .neq | .gt | .gte | .lt | .lte | .eqLower | .neqLower => [(parameter, .one scalar)]
  | .starts | .startsLower => [(parameter, .one (.text (text ++ "%")))]
  | .ends | .endsLower => [(parameter, .one (.text ("%" ++ text)))]
  | .contains | .notContains | .containsLower | .notContainsLower =>
    [(parameter, .one (.text ("%" ++ text ++ "%")))]
  | .isIn | .notIn | .inLower | .notInLower => [(parameter, .many scalars)]
  | .between =>
    [(parameter ++ "_start", .one (scalars.getD 0 .null)),
      (parameter ++ "_end", .one (scalars.getD 1 .null))]
  | .isNull | .notNull => []

/-- Compiles a leaf and binds its parameters. -/
def compileLeaf (schema : Schema) (q : Query) (relations : List Relation) (c : Comparison)
    (_ : Scope) : EStateM Error (Dict Operand) (Option String) := do
  match accepts schema q.entity c.path .condition with
  | .error e => throw e
  | .ok false => pure none
  | .ok true =>
    match c.validate with
    | .error e => throw e
    | .ok () =>
      let bound ← get
      let parameter := parameterName q.parameters bound c.path.name
      set (bound.insertAll (leafParameters c.operator c.value parameter))
      pure (some (leafText schema c.operator (columnOf q relations c.path) parameter))

/-- Puts every condition in parentheses, with the connective between them. -/
def joinConditions (k : Connective) (conditions : List String) : String :=
  Text.join (" " ++ k.text ++ " ") (conditions.map fun condition => "(" ++ condition ++ ")")

/-- Compiles conditions to text and parameters. -/
def compiler (schema : Schema) (q : Query) (relations : List Relation) :
    Compiler (Dict Operand) String where
  leaf := compileLeaf schema q relations
  join k conditions _ bound := (joinConditions k conditions, bound)

/-- Adds the condition of a request. -/
def withCondition (schema : Schema) (r : Request) (q : Query) : Except Error Query :=
  match ((compiler schema q r.relations).compile r.condition).run .empty with
  | .error e _ => .error e
  | .ok none _ => .ok q
  | .ok (some condition) parameters => .ok (q.addCondition condition parameters)

/-! ## Order and part -/

/-- Sorts by a column, if it is taken into the order. -/
def withSortKey (schema : Schema) (relations : List Relation) (q : Query) (o : Order) :
    Except Error Query :=
  (accepts schema q.entity o.path .order).map fun taken =>
    if taken then
      { q with order := q.order ++ [⟨columnOf q relations o.path, o.direction⟩] }
    else q

/-- Adds the order of a request. -/
def withOrder (schema : Schema) (r : Request) (q : Query) : Except Error Query :=
  r.order.foldlM (withSortKey schema r.relations) q

/-- Reads the table of the entity, if the registry knows it. -/
def withTable (schema : Schema) (q : Query) : Query :=
  match schema.registry.find? q.entity with
  | some entity => { q with table := entity.table }
  | none => q

/-- The query for all rows of a request, starting from a base. -/
def buildAll (schema : Schema) (base : Query) (r : Request) : Except Error Query := do
  let q ← withSelect schema r (withTable schema base)
  let q ← withRelations schema r q
  let q ← withCondition schema r q
  withOrder schema r q

/-- The part of the rows that a request asks for. -/
def paginate (r : Request) (q : Query) : Query :=
  { q with limit := r.limit, offset := if 0 < r.start then some r.start else none }

/-- The query of a request, starting from a base. -/
def build (schema : Schema) (base : Query) (r : Request) : Except Error Query :=
  (buildAll schema base r).map (paginate r)

end StoreQuery.Sql
