import StoreQuery.Number.Text

/-!
# Command lines

The program takes options only. An option with a value takes it from the next argument, or from
behind an `=`; a short one may have it right behind its letter. Short flags can be put together in
one argument. Options but `--param` may be given once.

Arguments are looked at one after the other, and the first that asks for help or for the version,
or that is wrong, decides the outcome. What is not given is taken from the environment, and then
from the defaults.
-/

namespace StoreQuery.CommandLine

/-- The store that a request is compiled for. -/
inductive Target where
  | array
  | sql
  | mongo
  | dynamodb
  deriving DecidableEq, Repr

namespace Target

def all : List Target := [array, sql, mongo, dynamodb]

def name : Target → String
  | array => "array"
  | sql => "sql"
  | mongo => "mongo"
  | dynamodb => "dynamodb"

def ofName? (text : String) : Option Target := all.find? fun t => t.name = text

end Target

/-- What the arguments and the environment say. -/
structure Arguments where
  target : Target := .sql
  entity : String := "entity"
  params : List (String × String) := []
  data : Option String := none
  config : Option String := none
  debug : Bool := false
  checkConfig : Bool := false
  deriving DecidableEq, Repr

/-- Why a command line is not run. -/
inductive Stop where
  | help
  | version
  | usage
  deriving DecidableEq, Repr

/-- The environment variables that stand in for options. -/
structure Environment where
  target : Option String := none
  entity : Option String := none
  config : Option String := none
  debug : Option String := none
  deriving DecidableEq, Repr

/-- What the arguments seen so far say. -/
structure Given where
  target : Option Target := none
  entity : Option String := none
  params : List (String × String) := []
  data : Option String := none
  config : Option String := none
  debug : Bool := false
  checkConfig : Bool := false
  deriving DecidableEq, Repr

/-! ## Options -/

/-- An option with a value. -/
inductive Valued where
  | target
  | entity
  | param
  | data
  | config
  deriving DecidableEq, Repr

/-- An option without a value. -/
inductive Flag where
  | debug
  | checkConfig
  | help
  | version
  deriving DecidableEq, Repr

/-- An option of either kind. -/
inductive Choice where
  | valued (option : Valued)
  | flag (option : Flag)
  deriving DecidableEq, Repr

/-- The option of a long name. -/
def ofLong? (name : String) : Option Choice :=
  [("adapter", Choice.valued .target), ("entity", .valued .entity), ("param", .valued .param),
    ("data", .valued .data), ("config", .valued .config), ("debug", .flag .debug),
    ("check-config", .flag .checkConfig), ("help", .flag .help),
    ("version", .flag .version)].lookup name

/-- The option of a letter. -/
def ofShort? : Char → Option Choice
  | 'a' => some (.valued .target)
  | 'e' => some (.valued .entity)
  | 'p' => some (.valued .param)
  | 'c' => some (.valued .config)
  | 'd' => some (.flag .debug)
  | 'h' => some (.flag .help)
  | 'V' => some (.flag .version)
  | _ => none

/-! ## Values -/

/-- Takes a value that is given once. -/
def once {α : Type} (old : Option α) (value : Option α) : Except Stop (Option α) :=
  match old, value with
  | none, some value => .ok (some value)
  | _, _ => .error .usage

/-- A path to a file, which is not empty. -/
def file? (text : String) : Option String := if text = "" then none else some text

/-- Takes the value of an option. -/
def Given.set (g : Given) (option : Valued) (value : String) : Except Stop Given :=
  match option with
  | .target => (once g.target (Target.ofName? value)).map fun target => { g with target }
  | .entity => (once g.entity (some value)).map fun entity => { g with entity }
  | .data => (once g.data (file? value)).map fun data => { g with data }
  | .config => (once g.config (file? value)).map fun config => { g with config }
  | .param =>
    match Text.cutAt "=" value with
    | some param => .ok { g with params := g.params ++ [param] }
    | none => .error .usage

/-- Takes a flag. -/
def Given.raise (g : Given) : Flag → Except Stop Given
  | .debug => if g.debug then .error .usage else .ok { g with debug := true }
  | .checkConfig => if g.checkConfig then .error .usage else .ok { g with checkConfig := true }
  | .help => .error .help
  | .version => .error .version

/-- Whether an argument can be the value of the option in front of it: it does not look like an
option itself. -/
def isValue (argument : String) : Bool :=
  match argument.toList with
  | ['-'] => true
  | '-' :: _ => false
  | _ => true

/-! ## Arguments -/

/-- Takes the letters of an argument. If the last one is an option whose value is not there, the
value is still to come. -/
def letters (g : Given) : List Char → Except Stop (Given × Option Valued)
  | [] => .ok (g, none)
  | c :: cs =>
    match ofShort? c with
    | none => .error .usage
    | some (.flag flag) =>
      match g.raise flag with
      | .ok g => letters g cs
      | .error stop => .error stop
    | some (.valued option) =>
      match cs with
      | [] => .ok (g, some option)
      | '=' :: value => (g.set option (String.ofList value)).map fun g => (g, none)
      | value => (g.set option (String.ofList value)).map fun g => (g, none)

/-- Takes a long option, with the value behind its `=` if there is one. -/
def long (g : Given) (text : String) : Except Stop (Given × Option Valued) :=
  let (name, value) := match Text.cutAt "=" text with
    | some (name, value) => (name, some value)
    | none => (text, none)
  match ofLong? name, value with
  | some (.flag flag), none => (g.raise flag).map fun g => (g, none)
  | some (.valued option), some value => (g.set option value).map fun g => (g, none)
  | some (.valued option), none => .ok (g, some option)
  | _, _ => .error .usage

/-- Takes one argument that is not a value. -/
def argument (g : Given) (text : String) : Except Stop (Given × Option Valued) :=
  match text.toList with
  | '-' :: '-' :: cs => long g (String.ofList cs)
  | '-' :: c :: cs => letters g (c :: cs)
  | _ => .error .usage

/-- Takes all arguments. Two dashes may stand at the end. -/
def arguments (g : Given) : List String → Except Stop Given
  | [] => .ok g
  | text :: rest =>
    if text = "--" then if rest.isEmpty then .ok g else .error .usage
    else match argument g text with
      | .error stop => .error stop
      | .ok (g, none) => arguments g rest
      | .ok (g, some option) =>
        match rest with
        | [] => .error .usage
        | value :: rest =>
          if isValue value then
            match g.set option value with
            | .ok g => arguments g rest
            | .error stop => .error stop
          else .error .usage

/-- Reads a truth value from the environment. -/
def truth? (text : String) : Option Bool :=
  if text = "true" then some true else if text = "false" then some false else none

/-- What is given, or else what the environment says if it can be read. -/
def orVariable {α : Type} (given : Option α) (setting? : Option String)
    (read? : String → Option α) : Except Stop (Option α) :=
  match given, setting? with
  | some value, _ => .ok (some value)
  | none, none => .ok none
  | none, some text =>
    match read? text with
    | some value => .ok (some value)
    | none => .error .usage

/-- Completes what is given from the environment and the defaults. -/
def Given.complete (g : Given) (env : Environment) : Except Stop Arguments := do
  let target ← orVariable g.target env.target Target.ofName?
  let entity ← orVariable g.entity env.entity some
  let config ← orVariable g.config env.config file?
  let debug ← orVariable (if g.debug then some true else none) env.debug truth?
  let base : Arguments := {}
  return {
    target := target.getD base.target
    entity := entity.getD base.entity
    params := g.params
    data := g.data
    config
    debug := debug.getD base.debug
    checkConfig := g.checkConfig }

/-- Reads a command line. -/
def parse (env : Environment) (args : List String) : Except Stop Arguments :=
  (arguments {} args).bind fun g => g.complete env

end StoreQuery.CommandLine
