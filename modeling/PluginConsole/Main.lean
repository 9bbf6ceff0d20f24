import PluginConsole.CommandLine.Execution
import PluginConsole.Text.Path

/-!
# The program

Reads the words of the command line, the files and the variables, and prints the result.
-/

namespace PluginConsole.Program

def readFile? (path : String) : IO (Option Config.SourceFile) := do
  try
    return some ⟨path, ← IO.FS.readFile path⟩
  catch _ => return none

/-- A file at an absolute path, named as it is seen from the working directory. -/
def readSeen? (directory path : String) : IO (Option Config.SourceFile) := do
  return (← readFile? path).map fun f => { f with path := Text.Path.seenFrom directory path }

def searchDepth := 64

def readAbove? (path : String) : IO (Option Config.SourceFile) := do
  for n in List.range searchDepth do
    let found ← readFile? (Text.join "" (List.replicate (n + 1) "../") ++ path)
    if found.isSome then return found
  return none

/-- The part of an entry before its first equals sign, and the rest. -/
def splitVariable (entry : String) : Config.Variable :=
  let cs := entry.toList
  (String.ofList (cs.takeWhile (· != '=')), String.ofList ((cs.dropWhile (· != '=')).drop 1))

def readEnvironment : IO (List Config.Variable) := do
  match ← readFile? "/proc/self/environ" with
  | some all => return ((all.content.splitOn "\x00").filter (· ≠ "")).map splitVariable
  | none => return []

def isAbsolute (path : String) : Bool :=
  path.toList.head? == some '/'

def userFile? (env : List Config.Variable) : Option String :=
  let configured := (env.lookup "XDG_CONFIG_HOME").filter isAbsolute
  let home := (env.lookup "HOME").map (· ++ "/.config")
  (configured.or home).map (· ++ "/" ++ Config.userPath)

def load (path : Option String) : IO (Except (List ConfigError) Config) := do
  let env ← readEnvironment
  let directory := (env.lookup "PWD").getD "/"
  match path with
  | some path =>
    let here ← if isAbsolute path then readSeen? directory path else readFile? path
    let above ← if here.isNone && !isAbsolute path then readAbove? path else pure none
    return Config.loadFile (here.or above) env
  | none =>
    let user ← match userFile? env with
      | some path => readSeen? directory path
      | none => pure none
    return Config.loadHierarchy {
      system := ← readSeen? directory Config.systemPath, user
      here := ← readFile? Config.localPath, above := ← readAbove? Config.localPath } env

def printResult (result : CommandLine.Result) : IO UInt32 := do
  let err ← IO.getStderr
  for n in result.log do
    err.putStr (CommandLine.noticeLine n)
  err.putStr result.err
  IO.print result.out
  return result.code.toUInt32

end PluginConsole.Program

open PluginConsole in
def main (words : List String) : IO UInt32 := do
  match CommandLine.parse words with
  | .error stop => Program.printResult stop.result
  | .ok i =>
    let colours ← (← IO.getStdout).isTty
    Program.printResult (i.run colours (← Program.load i.config))
