import StoreQuery.Condition.Compiler
import StoreQuery.Request.Page

/-!
# Filters of a document store

A document store filters by documents. A leaf becomes a document with one member, from the path to
what its value has to meet; brackets become `$and` and `$or` with a list of documents. The empty
document filters nothing. Texts become regular expressions in which every character stands for
itself, so operators on texts take nothing but texts.
-/

namespace StoreQuery.Document

/-! ## Values -/

/-- A scalar as the store writes it; dates are marked. -/
def scalarValue : Scalar → Json
  | .date t => .obj [("$date", .str t.offsetText)]
  | scalar => scalar.toJson

def listValue (scalars : List Scalar) : Json := .arr (scalars.map scalarValue)

/-- The characters that have a meaning in regular expressions. -/
def isMeta (c : Char) : Bool := "\\.+*?()|[]\x7b\x7d^$#&-~".toList.contains c

/-- A regular expression that matches exactly a text. -/
def escape (text : String) : String :=
  String.ofList (text.toList.flatMap fun c => if isMeta c then ['\\', c] else [c])

/-- What matches a regular expression, in any case if so wanted. -/
def matching (pattern : String) (anyCase : Bool) : Json :=
  .obj (("$regex", .str pattern) :: if anyCase then [("$options", .str "i")] else [])

/-- What does not meet a requirement. -/
def negated (value : Json) : Json := .obj [("$not", value)]

/-- A requirement with one operator of the store. -/
def required (name : String) (value : Json) : Json := .obj [(name, value)]

/-! ## Operands -/

def single (op : Operator) (value : Operand) : Except Error Scalar :=
  match value.asScalar? with
  | some scalar => .ok scalar
  | none => .error (op.fault .notSingle)

def many (op : Operator) (value : Operand) : Except Error (List Scalar) :=
  match value.asList? with
  | some scalars => .ok scalars
  | none => .error (op.fault .notList)

/-- A text as a regular expression that matches it. -/
def literal (op : Operator) : Scalar → Except Error String
  | .text s => .ok (escape s)
  | _ => .error (op.fault .notText)

/-- The single text of an operand, as a regular expression that matches it. -/
def singleLiteral (op : Operator) (value : Operand) : Except Error String :=
  (single op value).bind (literal op)

/-- What equals a text in any case, as an item of a list. -/
def listedPattern (op : Operator) (scalar : Scalar) : Except Error Json :=
  (literal op scalar).map fun text =>
    .obj [("$regularExpression",
      .obj [("pattern", .str ("^" ++ text ++ "$")), ("options", .str "i")])]

/-- What equals the texts of an operand in any case. -/
def listedPatterns (op : Operator) (value : Operand) : Except Error Json := do
  let scalars ← many op value
  let patterns ← scalars.mapM (listedPattern op)
  return .arr patterns

/-! ## Leaves -/

/-- What a value has to meet, for an operand that the operator accepts. -/
def requirement (op : Operator) (value : Operand) : Except Error Json :=
  match op with
  | .eq => (single op value).map scalarValue
  | .neq => (single op value).map fun s => required "$ne" (scalarValue s)
  | .gt => (single op value).map fun s => required "$gt" (scalarValue s)
  | .gte => (single op value).map fun s => required "$gte" (scalarValue s)
  | .lt => (single op value).map fun s => required "$lt" (scalarValue s)
  | .lte => (single op value).map fun s => required "$lte" (scalarValue s)
  | .isIn => (many op value).map fun l => required "$in" (listValue l)
  | .notIn => (many op value).map fun l => required "$nin" (listValue l)
  | .isNull => .ok (required "$eq" .null)
  | .notNull => .ok (required "$ne" .null)
  | .between => (many op value).bind fun
    | [low, high] => .ok (.obj [("$gte", scalarValue low), ("$lte", scalarValue high)])
    | _ => .error (op.fault .notBounds)
  | .contains => (singleLiteral op value).map fun text => matching text false
  | .containsLower => (singleLiteral op value).map fun text => matching text true
  | .notContains => (singleLiteral op value).map fun text => negated (matching text false)
  | .notContainsLower => (singleLiteral op value).map fun text => negated (matching text true)
  | .starts => (singleLiteral op value).map fun text => matching ("^" ++ text) false
  | .startsLower => (singleLiteral op value).map fun text => matching ("^" ++ text) true
  | .ends => (singleLiteral op value).map fun text => matching (text ++ "$") false
  | .endsLower => (singleLiteral op value).map fun text => matching (text ++ "$") true
  | .eqLower => (singleLiteral op value).map fun text => matching ("^" ++ text ++ "$") true
  | .neqLower =>
    (singleLiteral op value).map fun text => negated (matching ("^" ++ text ++ "$") true)
  | .inLower => (listedPatterns op value).map (required "$in")
  | .notInLower => (listedPatterns op value).map (required "$nin")

/-- The document of a leaf. -/
def leafDocument (c : Comparison) (_ : Scope) : Except Error (Option Json.Members) := do
  c.validate
  let value ← requirement c.operator c.value
  return some [(c.path.toText, value)]

/-! ## Brackets -/

/-- The name under which a bracket lists its documents. -/
def bracketName : Connective → String
  | .and => "$and"
  | .or => "$or"

def joinDocuments (k : Connective) (documents : List Json.Members) : Json.Members :=
  [(bracketName k, .arr (documents.map .obj))]

/-- Compiles conditions to documents. -/
def compiler : Compiler PUnit Json.Members := .stateless leafDocument joinDocuments

/-- The filter of a condition; empty if there is no constraint. -/
def filter (condition : Condition) : Except Error Json.Members :=
  (compiler.compilePure condition).map fun document => document.getD []

/-! ## Projection and order -/

/-- A sort key of a document store: a path, and `1` or `-1`. -/
structure SortKey where
  path : String
  direction : Int32
  deriving DecidableEq, Repr

/-- Shows the selected properties, if any are selected. -/
def projection (select : List Path) : Option Json.Members :=
  if select.isEmpty then none
  else some (Json.membersOf (select.map fun path => (path.toText, .ofInt64 1)))

def sortKeys (order : List Order) : List SortKey :=
  order.map fun o => ⟨o.path.toText, if o.direction = .ascending then 1 else -1⟩

def encodeSortKey (key : SortKey) : Json :=
  .arr [.str key.path, .ofInt64 key.direction.toInt64]

def encodeSort (keys : List SortKey) : Option Json :=
  if keys.isEmpty then none else some (.arr (keys.map encodeSortKey))

end StoreQuery.Document
