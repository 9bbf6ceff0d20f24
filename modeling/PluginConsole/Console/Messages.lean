import PluginConsole.Localization
import PluginConsole.Text.Blank

/-!
# The messages of a console

Configured messages hold for every module; the titles of the built-in plugins are there
in English. Locales are compared without regard to ASCII letter case, and one that has
no messages falls back to its language.
-/

namespace PluginConsole

/-- The module that the built-in plugins belong to. -/
def builtinOrigin := "webdeck"

/-- Messages by locale, in lower case. -/
abbrev Catalog := Dict (Dict String)

namespace Catalog

/-- Of two spellings of one locale the later counts. -/
def ofConfigured (messages : Dict (Dict String)) : Catalog :=
  Dict.ofList (messages.map fun (locale, table) => (Text.lowerAscii locale, table))

def english : Dict String :=
  Dict.ofList [("status.title", "Status"), ("configuration.title", "Configuration"),
    ("licenses.title", "Licenses")]

def builtin : Catalog := [("en", english)]

/-- The part of a locale before its first dash or underscore. -/
def language (locale : String) : String :=
  String.ofList (locale.toList.takeWhile fun c => c != '-' && c != '_')

/-- The messages of a locale, else those of its language. -/
def find? (c : Catalog) (locale : String) : Option (Dict String) :=
  let l := Text.lowerAscii locale
  (c.lookup l).or (c.lookup (language l))

def builtinFor (origin locale : String) : Option (Dict String) :=
  if origin = builtinOrigin then builtin.find? locale else none

/-- A configured message wins over the built-in one. -/
def messages (c : Catalog) (origin locale : String) : Except Fault (Dict String) :=
  match builtinFor origin locale, c.find? locale with
  | some below, some configured => .ok (Dict.overlay below configured)
  | some table, none | none, some table => .ok table
  | none, none => .error (.localization origin locale "no message table")

def localizer (c : Catalog) {m : Type → Type} [Monad m] : Localizer m := fun origin locale =>
  pure ((c.messages origin locale).mapError .fault)

end Catalog

end PluginConsole
