import PluginConsole.Dict
import PluginConsole.Json.Basic
import PluginConsole.Toml.Basic

/-!
# The configuration

What a console is started from, with the values of everything that is left out.
-/

namespace PluginConsole

/-- A plugin that the application makes: its factory, and its label in the console. -/
structure PluginSpec where
  factory : String
  label : String
  deriving DecidableEq, Inhabited

/-- A service that is published when the console starts. -/
structure ServiceSpec where
  label : String
  /-- Which built-in handler answers for it. -/
  handler : String
  title : Option String := none
  category : Option String := none
  ranking : Option Int := none
  provider : Option String := none
  origin : String := "webdeck"
  deriving DecidableEq, Inhabited

structure ConsoleSection where
  defaultLabel : Option String := none
  /-- For plugins that name no category. -/
  defaultCategory : String := "Main"
  locale : String := "en"
  logLevel : String := "info"
  /-- Factories that are switched off. -/
  disabledPlugins : List String := []
  plugins : List PluginSpec :=
    [⟨"status", "status"⟩, ⟨"configuration", "configuration"⟩, ⟨"licenses", "licenses"⟩]
  deriving DecidableEq, Inhabited

structure Config where
  console : ConsoleSection := {}
  services : List ServiceSpec := []
  messages : Dict (Dict String) := []
  deriving DecidableEq, Inhabited

namespace PluginSpec

def toJson (p : PluginSpec) : Json :=
  .record [("factory", .text p.factory), ("label", .text p.label)]

def toToml (p : PluginSpec) : Toml :=
  .table [("factory", .text p.factory), ("label", .text p.label)]

end PluginSpec

namespace ServiceSpec

def toJson (s : ServiceSpec) : Json :=
  .record [
    ("label", .text s.label), ("handler", .text s.handler),
    ("title", .ofOption .text s.title), ("category", .ofOption .text s.category),
    ("ranking", .ofOption .int s.ranking), ("provider", .ofOption .text s.provider),
    ("origin", .text s.origin)]

def optional (name : String) (f : α → Toml) (value : Option α) : List (String × Toml) :=
  (value.map fun a => (name, f a)).toList

def toToml (s : ServiceSpec) : Toml :=
  .table ([("label", .text s.label), ("handler", .text s.handler)] ++
    optional "title" .text s.title ++ optional "category" .text s.category ++
    optional "ranking" .int s.ranking ++ optional "provider" .text s.provider ++
    [("origin", .text s.origin)])

end ServiceSpec

namespace ConsoleSection

def toJson (c : ConsoleSection) : Json :=
  .record [
    ("default_label", .ofOption .text c.defaultLabel),
    ("default_category", .text c.defaultCategory),
    ("locale", .text c.locale),
    ("log_level", .text c.logLevel),
    ("disabled_plugins", .texts c.disabledPlugins),
    ("plugins", .list (c.plugins.map (·.toJson)))]

def toToml (c : ConsoleSection) : Toml :=
  .table (ServiceSpec.optional "default_label" .text c.defaultLabel ++ [
    ("default_category", .text c.defaultCategory),
    ("locale", .text c.locale),
    ("log_level", .text c.logLevel),
    ("disabled_plugins", .list (c.disabledPlugins.map .text)),
    ("plugins", .list (c.plugins.map (·.toToml)))])

end ConsoleSection

namespace Config

def toJson (c : Config) : Json :=
  .record [
    ("console", c.console.toJson),
    ("directory", .record [("services", .list (c.services.map (·.toJson)))]),
    ("i18n", .object (c.messages.mapValues .table))]

def toToml (c : Config) : List (String × Toml) := [
  ("console", c.console.toToml),
  ("directory", .table [("services", .list (c.services.map (·.toToml)))]),
  ("i18n", .table (c.messages.mapValues fun table => .table (table.mapValues .text)))]

end Config

end PluginConsole
