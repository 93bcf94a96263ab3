import StoreQuery.CommandLine.Arguments
import StoreQuery.Config.Builder
import StoreQuery.Config.Decode
import StoreQuery.Json.Read
import StoreQuery.KeyValue.Store
import StoreQuery.Memory.Query
import StoreQuery.Request.Params
import StoreQuery.Request.Restrict
import StoreQuery.Sql.Store

/-!
# Running command lines

A command line is answered with the query that its request compiles to, or with the page of rows
that it selects from a file. The files are given as a function from paths to contents, so the
outcome depends on nothing else.
-/

namespace StoreQuery.CommandLine

/-- The contents of the files that can be read. -/
abbrev Files := String → Option String

namespace Arguments

/-- The configuration of a command line. The named file must be there; the one at the usual place
is read if it can be. -/
def loadConfig (a : Arguments) (files : Files) (usual : Option String) : Except Error Config := do
  let config ← match a.config with
    | some path =>
      match files path with
      | some text => Config.ofYaml text
      | none => throw (.config (.unreadable path "cannot be read"))
    | none =>
      match usual.bind files with
      | some text => Config.ofYaml text
      | none => pure {}
  (config.withDebug a.debug).finish

/-- The request of a command line, kept within the limits of a configuration. -/
def request (a : Arguments) (limits : Limits) : Except Error Request := do
  let r ← Request.ofParams (.ofPairs a.params)
  match limits.default, limits.max with
  | none, none => return r
  | default, max =>
    let top := max.getD maxWord
    return r.restrictLimit (default.getD top) top

/-- A select query with its statement. -/
def sqlOutput (q : Sql.Query) : Json := .obj (q.encodeMembers ++ [("sql", .str q.text)])

/-- The documents in a file. -/
def documents (files : Files) (path : String) : Except Error (List Json) :=
  match files path with
  | none => .error (.io path)
  | some text =>
    match Json.read? text with
    | some (.arr items) => .ok items
    | _ => .error (.serialization path)

/-- The answer to a command line. -/
def run (a : Arguments) (c : Config) (files : Files) : Except Error Json := do
  let r ← a.request c.limits
  match a.target with
  | .sql =>
    let schema := c.sql.schema (.ofSettings c.sql.entities) .other
    return sqlOutput (← Sql.build schema (.of a.entity a.entity) r)
  | .mongo => return (← Document.Cursor.build {} r).encode
  | .dynamodb =>
    match c.table with
    | none => throw (.config .missingSection)
    | some table => return (← KeyValue.build table default r).encode
  | .array =>
    match a.data with
    | none => return r.encode
    | some path =>
      let rows ← documents files path
      return (← Memory.getMany [] rows r).encode

/-- What is said about a valid configuration. -/
def configReport (c : Config) : String :=
  "Configuration is valid!\n  SQL entities: " ++ Text.ofNat c.sql.entities.size ++ "\n"
    ++ match c.table with
      | some t => "  DynamoDB table: " ++ t.tableName ++ "\n"
      | none => ""

/-- What a command line prints. -/
def execute (a : Arguments) (files : Files) (usual : Option String) : Except Error String := do
  let c ← a.loadConfig files usual
  if a.checkConfig then return configReport c
  let output ← a.run c files
  return output.pretty ++ "\n"

end Arguments

/-- The outcome of a command line: an exit code, and what is printed. -/
structure Outcome where
  code : UInt32
  output : String
  complaint : String := ""
  deriving DecidableEq, Repr

/-- Name and version of the program. -/
def versionText : String := "crudql 0.1.0\n"

/-- How the program is used. -/
def helpText : String :=
  "Translate CRUD request parameters into native store queries\n\n"
    ++ "Usage: crudql [OPTIONS]\n\nOptions:\n"
    ++ "  -a, --adapter <ADAPTER>  array, sql, mongo or dynamodb [default: sql]\n"
    ++ "  -e, --entity <ENTITY>    main entity name and alias [default: entity]\n"
    ++ "  -p, --param <PARAM>      request parameter as key=value, repeatable\n"
    ++ "      --data <DATA>        JSON array of documents for the array adapter\n"
    ++ "  -c, --config <CONFIG>    configuration file\n"
    ++ "  -d, --debug              enable debug logging\n"
    ++ "      --check-config       validate the configuration and exit\n"
    ++ "  -h, --help               print help\n"
    ++ "  -V, --version            print version\n"

/-- Runs the program: wrong arguments give code 2, an error gives code 1 and prints nothing. -/
def respond (env : Environment) (files : Files) (usual : Option String) (args : List String) :
    Outcome :=
  match parse env args with
  | .error .help => { code := 0, output := helpText }
  | .error .version => { code := 0, output := versionText }
  | .error .usage => { code := 2, output := "", complaint := "error: invalid arguments\n" }
  | .ok a =>
    match a.execute files usual with
    | .ok output => { code := 0, output }
    | .error e => { code := 1, output := "", complaint := "Error: " ++ e.message ++ "\n" }

end StoreQuery.CommandLine
