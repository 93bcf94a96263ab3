import StoreQuery.CommandLine.Run

/-!
# The program

Reads the environment and the files that a command line may name, and prints the outcome.
`CommandLine.respond` decides everything else.
-/

namespace StoreQuery.CommandLine

/-- The environment variables that stand in for options. -/
def readEnvironment : IO Environment := do
  return {
    target := ← IO.getEnv "CRUDQL_ADAPTER"
    entity := ← IO.getEnv "CRUDQL_ENTITY"
    config := ← IO.getEnv "CRUDQL_CONFIG"
    debug := ← IO.getEnv "CRUDQL_DEBUG" }

/-- Where the configuration is usually kept. -/
def usualPlace : IO (Option String) := do
  let home := (← IO.getEnv "HOME").map (· ++ "/.config")
  let folder := match ← IO.getEnv "XDG_CONFIG_HOME" with
    | some folder => if folder.startsWith "/" then some folder else home
    | none => home
  return folder.map (· ++ "/crudql/config.yaml")

/-- The contents of those files that can be read. -/
def readFiles : List String → IO (List (String × String))
  | [] => return []
  | path :: paths => do
    let found ← try pure [(path, ← IO.FS.readFile path)] catch _ => pure []
    return found ++ (← readFiles paths)

/-- Answers a command line, and gives the exit code. -/
def runProgram (args : List String) : IO UInt32 := do
  let env ← readEnvironment
  let usual ← usualPlace
  let named := match parse env args with
    | .ok a => [a.config, a.data, usual].filterMap id
    | .error _ => []
  let contents ← readFiles named
  let outcome := respond env (fun path => contents.lookup path) usual args
  (← IO.getStdout).putStr outcome.output
  (← IO.getStderr).putStr outcome.complaint
  return outcome.code

end StoreQuery.CommandLine

def main (args : List String) : IO UInt32 := StoreQuery.CommandLine.runProgram args
