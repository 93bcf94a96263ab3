import StoreQuery.Condition.Compiler
import StoreQuery.Memory.Lookup
import StoreQuery.Text.Lower
import StoreQuery.Text.Split

/-!
# Conditions on documents

`Comparison.holds` says when a comparison holds of a document, and `Memory.predicate` compiles a
condition to a test of documents.

A property that is not there equals null and nothing else, is in no list and matches no text.
A property that holds an array is in a list if one of its items is. The operators that ignore
case compare the small letters of both sides, and lists of them look at texts only.
-/

namespace StoreQuery

namespace Memory

/-! ## Tests of a value -/

/-- Whether a value equals a scalar; a missing value equals null. -/
def equals (item : Option Json) (scalar : Scalar) : Bool :=
  match item with
  | none => scalar.isNull
  | some value => value.compareScalar? scalar == some .eq

/-- Whether the order of a value and a scalar is there and accepted. -/
def ordered (accept : Ordering → Bool) (item : Option Json) (scalar : Scalar) : Bool :=
  ((item.bind fun value => value.compareScalar? scalar).map accept).getD false

/-- Whether a value equals a scalar of the list. -/
def inList (scalars : List Scalar) (value : Json) : Bool :=
  scalars.any fun scalar => equals (some value) scalar

/-- Whether a value is a text that equals a text of the list but for case. -/
def inListLower (scalars : List Scalar) (value : Json) : Bool :=
  scalars.any fun scalar =>
    match value, scalar with
    | .str text, .text other => Text.lower text == Text.lower other
    | _, _ => false

/-- Whether a value, or an item of an array, passes a test. -/
def someItem (test : Json → Bool) : Option Json → Bool
  | some (.arr items) => items.any test
  | some value => test value
  | none => false

/-- Whether a value is a text that passes a test with the text of a scalar. -/
def textTest (test : List Char → List Char → Bool) (item : Option Json) (scalar : Scalar) :
    Bool :=
  match item with
  | some (.str text) => test text.toList scalar.toText.toList
  | _ => false

/-- Whether a value is a text that passes a test with the text of a scalar, both in small
letters. -/
def textTestLower (test : List Char → List Char → Bool) (item : Option Json) (scalar : Scalar) :
    Bool :=
  match item with
  | some (.str text) => test (Text.lower text).toList (Text.lower scalar.toText).toList
  | _ => false

/-- Whether a text begins with another. -/
def startsWith (text part : List Char) : Bool := part.isPrefixOf text

/-- Whether a text ends with another. -/
def endsWith (text part : List Char) : Bool := part.isSuffixOf text

/-- Whether a text contains another. -/
def contains (text part : List Char) : Bool := Text.containsChars part text

/-- Whether a text equals another. -/
def sameText (text part : List Char) : Bool := text == part

/-- Whether a value lies between two scalars. -/
def between (item : Option Json) : List Scalar → Bool
  | [low, high] => ordered (·.isGE) item low && ordered (·.isLE) item high
  | _ => false

/-- Whether a value is missing or null. -/
def vacant : Option Json → Bool
  | none => true
  | some value => value.isNull

/-- Whether a value stands in the relation of an operator to an operand. -/
def evaluate (item : Option Json) (op : Operator) (operand : Operand) : Bool :=
  let scalar := operand.asScalar?.getD .null
  let scalars := operand.asList?.getD []
  match op with
  | .eq => equals item scalar
  | .neq => !equals item scalar
  | .gt => ordered (·.isGT) item scalar
  | .gte => ordered (·.isGE) item scalar
  | .lt => ordered (·.isLT) item scalar
  | .lte => ordered (·.isLE) item scalar
  | .between => between item scalars
  | .isNull => vacant item
  | .notNull => !vacant item
  | .starts => textTest startsWith item scalar
  | .ends => textTest endsWith item scalar
  | .contains => textTest contains item scalar
  | .notContains => !textTest contains item scalar
  | .isIn => someItem (inList scalars) item
  | .notIn => !someItem (inList scalars) item
  | .eqLower => textTestLower sameText item scalar
  | .neqLower => !textTestLower sameText item scalar
  | .startsLower => textTestLower startsWith item scalar
  | .endsLower => textTestLower endsWith item scalar
  | .containsLower => textTestLower contains item scalar
  | .notContainsLower => !textTestLower contains item scalar
  | .inLower => someItem (inListLower scalars) item
  | .notInLower => !someItem (inListLower scalars) item

end Memory

/-- Whether a comparison holds of a document. -/
def Comparison.holds (c : Comparison) (document : Json) : Bool :=
  Memory.evaluate (document.atPath? c.path) c.operator c.value

namespace Memory

/-! ## Tests of a document -/

/-- A test of documents. -/
abbrev Predicate := Json → Bool

/-- Both, or one, of several tests. -/
def joinPredicates : Connective → List Predicate → Predicate
  | .and, tests => fun document => tests.all fun test => test document
  | .or, tests => fun document => tests.any fun test => test document

/-- Compiles a comparison whose operator accepts its value. -/
def leafPredicate (c : Comparison) (_ : Scope) : Except Error (Option Predicate) :=
  c.validate.map fun _ => some c.holds

/-- Compiles conditions to tests of documents. -/
def compiler : Compiler PUnit Predicate := .stateless leafPredicate joinPredicates

/-- The test that a condition stands for. No constraint accepts every document. -/
def predicate (condition : Condition) : Except Error Predicate :=
  (compiler.compilePure condition).map fun test => test.getD fun _ => true

end Memory

end StoreQuery
