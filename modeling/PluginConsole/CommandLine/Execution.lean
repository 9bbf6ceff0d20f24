import PluginConsole.CommandLine.Invocation
import PluginConsole.Config.Load
import PluginConsole.Console.Commands

/-!
# Running an invocation

What an invocation prints and with which code it ends, given the configuration or what is
wrong with it. A console is started only for a command, and it is shut down after it.
-/

namespace PluginConsole.CommandLine

structure Result where
  code : Nat := 0
  out : String := ""
  err : String := ""
  log : List Notice := []
  deriving Inhabited

def versionText := "webdeck 0.1.0\n"

def noCommandText := "webdeck: use --help for available commands\n"

def usageText :=
  "Usage: webdeck [--config <FILE>] [--log-level <LEVEL>] [COMMAND]\n\n" ++
  "Commands:\n" ++
  "  labels   Print the navigation as JSON [--locale <LOCALE>] [--default-category <NAME>]\n" ++
  "  plugins  List the plugins [--json] [--plain]\n" ++
  "  lookup   Find a plugin by its label, or the default plugin [LABEL]\n" ++
  "  config   Print the effective configuration\n"

def Stop.result : Stop → Result
  | .help => { out := usageText }
  | .version => { out := versionText }
  | .misuse => { code := 2, err := usageText }

def errorText (e : ConfigError) : String :=
  let help := match e.help with
    | some h => "  help: " ++ h ++ "\n"
    | none => ""
  "error[" ++ e.code ++ "]: " ++ e.message ++ "\n" ++ help

/-! ## The console of an invocation -/

/-- The objects that a console of its own made. -/
abbrev Own := List Builtin

def builtins : Builtin.Store (Site Own) where
  read s := s.own
  write all s := { s with own := all }

def environment : Environment (Site Own) :=
  Site.environment (Builtin.code builtins fun s => s.host.origin)

def lookupResult (label : String) : Outcome (Option Console.Found) → Result
  | .ok (some found) => { out := found.text }
  | .ok none => { code := 2, err := s!"webdeck: no plugin resolves for `{label}`\n" }
  | .error f => { code := 101, err := (f.contained "lookup").message ++ "\n" }

/-- `colours` says whether the output may be coloured. -/
def answer (c : Console) (colours : Bool) : Command → Act (Site Own) Result
  | .labels locale defaultCategory =>
    return { out := ← c.labelsText environment locale defaultCategory }
  | .plugins json plain =>
    return { out := ← c.pluginsText environment json (colours && !plain) }
  | .lookup label => do
    let label := label.filter (· ≠ "")
    return lookupResult (label.getD "") (← c.lookup environment label)
  | .config => return { out := c.config.document }

def session (config : Config) (colours : Bool) (command : Command) : Act (Site Own) Result := do
  match ← Console.start environment builtins config with
  | .error f => return { code := 1, err := "webdeck: " ++ f.message ++ "\n" }
  | .ok c =>
    let result ← answer c colours command
    c.shutdown environment
    return result

/-! ## The log -/

def isShown (logLevel : String) (n : Notice) : Bool :=
  match Text.lowerAscii logLevel with
  | "error" => false
  | "warn" => n.isWarning
  | _ => true

def noticeLine (n : Notice) : String :=
  let fields := n.fields.map fun (key, value) => " " ++ key ++ "=" ++ value.compact
  n.level ++ " " ++ n.words ++ Text.join "" fields ++ "\n"

/-! ## Invocations -/

def runCommand (config : Config) (logLevel : String) (colours : Bool) (command : Command) :
    Result :=
  let (result, w) := (session config colours command).run { outside := Console.site config [] }
  { result with log := w.log.filter (isShown logLevel) }

def Invocation.run (i : Invocation) (colours : Bool) :
    Except (List ConfigError) Config → Result
  | .error errors => { code := 1, err := Text.join "" (errors.map errorText) }
  | .ok config =>
    match i.command with
    | none => { out := noCommandText }
    | some command =>
      runCommand config (i.logLevel.getD config.console.logLevel) colours command

end PluginConsole.CommandLine
