import PluginConsole.CommandLine.Grammar

/-!
# Invocations

The commands of the console and their options. Two options may stand before or after the
name of a command, and the one after it counts.
-/

namespace PluginConsole.CommandLine

inductive Command where
  | labels (locale defaultCategory : Option String)
  | plugins (json plain : Bool)
  /-- The empty label asks for the default plugin. -/
  | lookup (label : Option String)
  | config
  deriving DecidableEq, Inhabited

structure Invocation where
  /-- A configuration file in place of those that are looked for. -/
  config : Option String := none
  logLevel : Option String := none
  command : Option Command := none
  deriving DecidableEq, Inhabited

def commonOptions : List String := ["config", "log-level"]

def topGrammar : Grammar where
  options := commonOptions
  commands := ["labels", "plugins", "lookup", "config", "help"]
  hasVersion := true

def grammarOf : String → Grammar
  | "labels" => { options := "locale" :: "default-category" :: commonOptions }
  | "plugins" => { flags := ["json", "plain"], options := commonOptions }
  | "lookup" => { options := commonOptions, words := 1 }
  | _ => { options := commonOptions }

def commandOf (name : String) (g : Given) : Command :=
  match name with
  | "labels" => .labels (g.options.lookup "locale") (g.options.lookup "default-category")
  | "plugins" => .plugins (g.flags.contains "json") (g.flags.contains "plain")
  | "lookup" => .lookup g.words.head?
  | _ => .config

/-- Help is given on a command, and on help itself. -/
def helpStop : List String → Stop
  | [] => .help
  | [name] => if topGrammar.commands.contains name then .help else .misuse
  | _ => .misuse

def parse (words : List String) : Except Stop Invocation := do
  let top ← topGrammar.scan {} words
  let outer (name : String) := top.options.lookup name
  match top.command with
  | none => return { config := outer "config", logLevel := outer "log-level" }
  | some ("help", rest) => throw (helpStop rest)
  | some (name, rest) =>
    let g ← (grammarOf name).scan {} rest
    return {
      config := (g.options.lookup "config").or (outer "config")
      logLevel := (g.options.lookup "log-level").or (outer "log-level")
      command := some (commandOf name g) }

end PluginConsole.CommandLine
