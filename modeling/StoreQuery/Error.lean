import StoreQuery.Number.Text

/-!
# Errors

Every way in which a request, a configuration or a store can fail, by cause. The wording of each
cause is given once, by `Error.message`. An error has a category, and it is a client error when
the incoming request caused it and not the store or the surroundings.
-/

namespace StoreQuery

/-! ## Causes -/

/-- What is wrong with the value given to an operator. -/
inductive ValueFault where
  | notSingle
  | notList
  | emptyList
  | notPair (count : Nat)
  | notBounds
  | notVacant
  | notText
  | notComparable (path : String)
  | other (text : String)
  deriving DecidableEq, Repr

/-- What is wrong with the place at which a condition tree is changed or used. -/
inductive StateFault where
  | foreignCursor (index : Nat)
  | beyondKey
  | other (text : String)
  deriving DecidableEq, Repr

/-- What is wrong with a configuration. -/
inductive ConfigFault where
  | unknownTarget (entity relation target : String)
  | emptyTableName
  | emptyPartitionKey
  | sameKeys (key : String)
  | zeroLimit
  | crossedLimits (default max : UInt64)
  | badYaml (detail : String)
  | unreadable (path detail : String)
  | missingSection
  | noSqlStore
  | noCollection
  | noModelStore
  | noKeyValueStore
  | other (text : String)
  deriving DecidableEq, Repr

/-- What is wrong with the text of a request. -/
inductive ParseFault where
  | badSearch (detail : String)
  | notConditions (name : String)
  | notComparable (path : String)
  | other (text : String)
  deriving DecidableEq, Repr

/-- Everything that can go wrong. -/
inductive Error where
  | invalidValue (operator : String) (fault : ValueFault)
  | unsupported (operator target : String)
  | invalidField (clause path : String)
  | invalidState (fault : StateFault)
  | scanDisabled (table : String)
  | config (fault : ConfigFault)
  | parse (fault : ParseFault)
  | io (detail : String)
  | serialization (detail : String)
  | store (detail : String)
  deriving DecidableEq, Repr

/-! ## Wording -/

def ValueFault.message : ValueFault → String
  | .notSingle => "expected a primitive value"
  | .notList => "expected an array value"
  | .emptyList => "expected a non-empty array"
  | .notPair count => "expected exactly 2 values, got " ++ Text.ofNat count
  | .notBounds => "expected exactly 2 values"
  | .notVacant => "expected no value, null or true"
  | .notText => "expected a string value"
  | .notComparable path => "unsupported value for " ++ path
  | .other text => text

def StateFault.message : StateFault → String
  | .foreignCursor index => "cursor " ++ Text.ofNat index ++ " does not address a bracket"
  | .beyondKey => "a point lookup cannot apply conditions beyond its key"
  | .other text => text

def ConfigFault.message : ConfigFault → String
  | .unknownTarget entity relation target =>
    "Relation '" ++ entity ++ "." ++ relation ++ "' targets unknown entity '" ++ target ++ "'"
  | .emptyTableName => "dynamodb.table_name must not be empty"
  | .emptyPartitionKey => "dynamodb.partition_key must not be empty"
  | .sameKeys key => "Partition and sort key must be different: both set to " ++ key
  | .zeroLimit => "Limits must be greater than 0"
  | .crossedLimits default max =>
    "default_limit " ++ Text.ofNat default.toNat ++ " exceeds max_limit " ++ Text.ofNat max.toNat
  | .badYaml detail => "Failed to parse YAML config: " ++ detail
  | .unreadable path detail => "Failed to read config file \"" ++ path ++ "\": " ++ detail
  | .missingSection => "The dynamodb adapter needs a dynamodb section in the config"
  | .noSqlStore => "No SQL executor attached to the adapter"
  | .noCollection => "No collection attached to the adapter"
  | .noModelStore => "No model executor attached to the adapter"
  | .noKeyValueStore => "No DynamoDB client attached to the adapter"
  | .other text => text

def ParseFault.message : ParseFault → String
  | .badSearch detail => "Invalid search condition: " ++ detail
  | .notConditions name => name ++ " must be an array of conditions"
  | .notComparable path => "unsupported value for " ++ path
  | .other text => text

namespace Error

/-- The text of an error. -/
def message : Error → String
  | .invalidValue operator fault =>
    "Invalid value for operator '" ++ operator ++ "': " ++ fault.message
  | .unsupported operator target =>
    "Operator '" ++ operator ++ "' is not supported by the " ++ target ++ " adapter"
  | .invalidField clause path => clause ++ " field \"" ++ path ++ "\" is invalid."
  | .invalidState fault => "Invalid where builder state: " ++ fault.message
  | .scanDisabled table => "Scan operations are disabled for table '" ++ table ++ "'"
  | .config fault => "Configuration error: " ++ fault.message
  | .parse fault => "Parse error: " ++ fault.message
  | .io detail => "IO error: " ++ detail
  | .serialization detail => "Serialization error: " ++ detail
  | .store detail => "Store error: " ++ detail

/-- The group an error belongs to in logs. -/
def category : Error → String
  | .invalidValue .. | .invalidField .. => "validation"
  | .unsupported .. | .scanDisabled .. => "capability"
  | .invalidState .. => "builder"
  | .config .. => "config"
  | .parse .. | .serialization .. => "serialization"
  | .io .. => "io"
  | .store .. => "store"

/-- Whether the incoming request caused the error. -/
def isClient : Error → Bool
  | .invalidValue .. | .unsupported .. | .invalidField .. | .parse .. | .scanDisabled .. => true
  | _ => false

end Error

end StoreQuery
