import PluginConsole.Config.EnvName
import PluginConsole.Config.EnvValue
import PluginConsole.Config.Problem
import PluginConsole.Toml.Reader

/-!
# Loading a configuration

The layers of a configuration, from the lowest: defaults, files, environment. A file
that is no TOML is an error by itself; otherwise the first problem of the merged
tree is told, or every violated rule.
-/

namespace PluginConsole.Config

structure TomlText where
  layer : Layer
  content : String
  deriving Inhabited

def TomlText.tree? (t : TomlText) : Option Tree :=
  (Toml.read t.content).map fun members => .ofToml t.layer (.table members)

abbrev Variable := String × String

def nest (path : List String) (t : Tree) : Tree :=
  path.foldr (fun key t => .table .environment [(key, t)]) t

def environmentTree (env : List Variable) : Tree :=
  env.foldl (fun t (name, value) =>
    match EnvName.path? name with
    | some path => t.merge (nest path (EnvValue.parse value))
    | none => t) (.table .environment [])

/-- The defaults as the lowest layer. What has no default value is there as nothing. -/
def defaultTree : Tree :=
  let text (s : String) : Tree := .leaf .defaults (.text s)
  let c : ConsoleSection := {}
  .table .defaults [
    ("console", .table .defaults [
      ("default_category", text c.defaultCategory),
      ("default_label", .leaf .defaults .null),
      ("disabled_plugins", .list .defaults []),
      ("locale", text c.locale),
      ("log_level", text c.logLevel),
      ("plugins", .list .defaults (c.plugins.map fun p =>
        .table .defaults [("factory", text p.factory), ("label", text p.label)]))]),
    ("directory", .table .defaults [("services", .list .defaults [])]),
    ("i18n", .table .defaults [])]

def merged (trees : List Tree) : Tree :=
  trees.foldl Tree.merge defaultTree

def extract (files : List SourceFile) (t : Tree) : Except (List ConfigError) Config :=
  match ofTree false t with
  | .error p => .error [p.toError files]
  | .ok c =>
    let found := violations c
    if found.isEmpty then .ok c else .error (found.map .violation)

/-- `files` are those in which a key can be pointed at. -/
def load (texts : List TomlText) (env : List Variable) (files : List SourceFile) :
    Except (List ConfigError) Config :=
  let bad := texts.filter fun t => t.tree?.isNone
  if bad.isEmpty then
    extract files (merged (texts.filterMap (·.tree?) ++ [environmentTree env]))
  else .error (bad.map fun _ => .other "TOML parse error")

def loadText (content : String) : Except (List ConfigError) Config :=
  load [⟨.inline, content⟩] [] []

def SourceFile.text (f : SourceFile) : TomlText :=
  ⟨.file f.path, f.content⟩

def loadFile (file : Option SourceFile) (env : List Variable) :
    Except (List ConfigError) Config :=
  load (file.map (·.text)).toList env file.toList

structure Hierarchy where
  system : Option SourceFile := none
  user : Option SourceFile := none
  /-- In the working directory. -/
  here : Option SourceFile := none
  /-- In a directory above it; counts only if there is none here. -/
  above : Option SourceFile := none
  deriving Inhabited

def systemPath := "/etc/webdeck/webdeck.toml"

/-- Below the directory for the configurations of the user. -/
def userPath := "webdeck/webdeck.toml"

def localPath := "webdeck.toml"

/-- From the lowest layer to the highest. -/
def Hierarchy.layers (h : Hierarchy) : List SourceFile :=
  h.system.toList ++ h.user.toList ++ (h.here.or h.above).toList

/-- A key can be pointed at in every file but one found above the working directory. -/
def loadHierarchy (h : Hierarchy) (env : List Variable) : Except (List ConfigError) Config :=
  load (h.layers.map (·.text)) env (h.here.toList ++ h.user.toList ++ h.system.toList)

end PluginConsole.Config
