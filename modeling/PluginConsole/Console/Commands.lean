import PluginConsole.Console.Basic
import PluginConsole.Json.Printer
import PluginConsole.Toml.Printer

/-!
# Commands on a console

The texts that the commands print: the navigation, a listing of the plugins, one plugin
found by its label, and the configuration. Objects are written with their members in a
fixed order, not sorted by name.
-/

namespace PluginConsole

def Registry.PluginInfo.toJson (p : PluginInfo) : Json := .object [
  ("label", .text p.label),
  ("title", .text p.title),
  ("category", .ofOption .text p.category),
  ("source", .text p.source.name),
  ("provider", .text p.provider),
  ("rank", .int p.rank),
  ("sequence_id", .ofNat p.sequenceId),
  ("enabled", .bool p.enabled),
  ("warm", .bool p.warm)]

def Config.document (c : Config) : String :=
  Toml.pretty c.toToml

namespace Console

variable {π : Type} (env : Environment (Site π)) (c : Console)

def shownTitle (title origin : String) : Act (Site π) String :=
  Act.outside (localize c.localizer title origin c.config.console.locale)

/-! ## The navigation -/

def labelsText (locale defaultCategory : Option String) : Act (Site π) String := do
  let map ← c.labelMap env locale defaultCategory
  return map.toJson.pretty ++ "\n"

/-! ## The listing -/

inductive Colour where
  | green
  | red
  deriving DecidableEq

def Colour.paint (colour : Colour) (s : String) : String :=
  let number := match colour with
    | .green => "32"
    | .red => "31"
  "\x1b[" ++ number ++ "m" ++ s ++ "\x1b[0m"

def stateText (enabled colours : Bool) : String :=
  match enabled, colours with
  | true, true => Colour.green.paint "enabled"
  | false, true => Colour.red.paint "disabled"
  | true, false => "[enabled]"
  | false, false => "[disabled]"

def pluginLine (p : Registry.PluginInfo) (title : String) (colours : Bool) : String :=
  Text.join " " [Text.padRight 16 p.label, Text.padRight 20 title,
    Text.padRight 9 p.source.name, "rank", Text.padRight 4 (toString p.rank), p.provider,
    stateText p.enabled colours]

/-- The module of the entry under a label; a label without an entry counts as built in. -/
def originOf (w : World (Site π)) (label : String) : String :=
  match w.table.lookup label with
  | some id => Lifecycle.origin env w (w.entry id)
  | none => builtinOrigin

def pluginLines (colours : Bool) : List Registry.PluginInfo → Act (Site π) (List String)
  | [] => return []
  | p :: rest => do
    let title ← c.shownTitle p.title (originOf env (← get) p.label)
    return ("    " ++ pluginLine p title colours) :: (← pluginLines colours rest)

def listing (lines : List String) : String :=
  let heading := ["", "  webdeck plugins", "  " ++ String.ofList (List.replicate 35 '-')]
  let body := if lines.isEmpty then ["    (none)"] else lines
  Text.join "\n" (heading ++ body ++ ["", ""])

def pluginsText (json colours : Bool) : Act (Site π) String := do
  let plugins ← Registry.describe env
  if json then
    return (Json.list (plugins.map (·.toJson))).pretty ++ "\n"
  else
    return listing (← pluginLines env c colours plugins)

/-! ## One plugin -/

structure Found where
  label : String
  title : String
  category : Option String
  deriving DecidableEq, Inhabited

def Found.text (f : Found) : String :=
  Json.pretty (.object [("label", .text f.label), ("title", .text f.title),
    ("category", .ofOption .text f.category)]) ++ "\n"

/-- Title and module of a component: those of the entry under the component's own label,
else what it says itself. -/
def titleOf (component : Component) (label : String) :
    Act (Site π) (Outcome (String × String)) := do
  match (← get).table.lookup label with
  | some id =>
    let title ← Lifecycle.title env id
    let w ← get
    return .ok (title, Lifecycle.origin env w (w.entry id))
  | none => return (← Lifecycle.callTitle env component).map fun title => (title, builtinOrigin)

def describeComponent (component : Component) : Act (Site π) (Outcome Found) := do
  let label := Lifecycle.labelOf env component
  match ← titleOf env component label with
  | .error f => return .error f
  | .ok (title, origin) =>
    let title ← c.shownTitle title origin
    return (← Lifecycle.callCategory env component).map fun category => { label, title, category }

/-- Without a label the default plugin is looked up. A panic of the component is not
contained here. -/
def lookup (label : Option String) : Act (Site π) (Outcome (Option Found)) := do
  let component ← match label with
    | some label => Registry.lookup env label
    | none => Registry.lookupDefault env
  match component with
  | none => return .ok none
  | some component => return (← c.describeComponent env component).map some

end Console

end PluginConsole
