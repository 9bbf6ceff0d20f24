import PluginConsole.Config.Decode
import PluginConsole.Config.KeyPosition
import PluginConsole.Config.Validation
import PluginConsole.Text.Similarity

/-!
# Configuration errors

What is told to the person who wrote the configuration: the offending key, where it
stands, and the key that was probably meant.
-/

namespace PluginConsole

/-- How alike two keys must be for one to be offered in place of the other. -/
def suggestionThreshold : Float := 0.8

/-- The valid key most like the given one; of equals the last. -/
def suggestKey (key : String) (valid : List String) : Option String :=
  let scored := (valid.map fun v => (Text.jaroWinkler key v, v)).filter fun (score, _) =>
    score > suggestionThreshold
  (scored.foldl (fun best (score, v) =>
    match best with
    | some (top, w) => if score < top then some (top, w) else some (score, v)
    | none => some (score, v)) none).map Prod.snd

/-- A key in a file: the byte it begins at, and its length. -/
structure KeySpan where
  offset : Nat
  length : Nat
  file : String
  deriving DecidableEq, Inhabited

inductive ConfigError where
  | unknownKey (key : String) (suggestion : Option String) (valid : List String)
      (span : Option KeySpan)
  | invalidType (key detail expected : String)
  | missingKey (key : String)
  | violation (v : Config.Violation)
  | other (detail : String)
  deriving Inhabited

namespace ConfigError

def kind : ConfigError → String
  | .unknownKey .. => "UnknownKey"
  | .invalidType .. => "InvalidType"
  | .missingKey _ => "MissingKey"
  | .violation _ => "Validation"
  | .other _ => "Other"

def message : ConfigError → String
  | .unknownKey key .. => s!"unknown configuration key `{key}`"
  | .invalidType key detail _ => s!"invalid type for key `{key}`: {detail}"
  | .missingKey key => s!"missing required key `{key}`"
  | .violation v => "validation error: " ++ v.message
  | .other detail => s!"configuration error: {detail}"

def code : ConfigError → String
  | .unknownKey .. => "webdeck::config::unknown_key"
  | .invalidType .. => "webdeck::config::invalid_type"
  | .missingKey _ => "webdeck::config::missing_key"
  | .violation _ => "webdeck::config::validation"
  | .other _ => "webdeck::config::other"

def help : ConfigError → Option String
  | .unknownKey _ (some s) valid _ =>
    some (s!"did you mean `{s}`? Valid keys: " ++ Text.join ", " valid)
  | .unknownKey _ none valid _ => some ("valid keys: " ++ Text.join ", " valid)
  | .invalidType _ _ expected => some s!"expected {expected}"
  | .missingKey key => some s!"add `{key} = <value>` to your webdeck.toml"
  | _ => none

end ConfigError

namespace Config

structure SourceFile where
  path : String
  content : String
  deriving Inhabited

/-- The place of an unknown key in the file that it comes from. The path of such a
problem ends with the key itself. -/
def locate (files : List SourceFile) (p : Problem) (key : String) : Option KeySpan :=
  match p.layer with
  | .file path => do
    let file ← files.find? (·.path == path)
    let offset ← KeyPosition.find file.content p.path key
    some ⟨offset, key.utf8ByteSize, file.path⟩
  | _ => none

def dotted (path : List String) : String :=
  Text.join "." path

def sourceText : Layer → String
  | .defaults => "defaults"
  | .inline => "TOML source string"
  | .file path => s!"{path} TOML file"
  | .environment => "`WEBDECK_` environment variable(s)"

def keyText (layer : Layer) (path : List String) : String :=
  match layer with
  | .environment => Text.upperAscii (dotted path)
  | _ => dotted ("default" :: path)

def placeText (p : Problem) : String :=
  let key := if p.path.isEmpty then "" else " for key " ++ Text.quote (keyText p.layer p.path)
  key ++ " in " ++ sourceText p.layer

def Problem.toError (files : List SourceFile) (p : Problem) : ConfigError :=
  match p.cause with
  | .unknownKey key valid => .unknownKey key (suggestKey key valid) valid (locate files p key)
  | .missingKey key => .missingKey (dotted (p.path ++ [key]))
  | .wrongType found expected =>
    .invalidType (dotted p.path) ("found " ++ found.kindText ++ ", expected " ++ expected) expected
  | .outOfRange found expected =>
    .other ("invalid value " ++ found.kindText ++ ", expected " ++ expected ++ placeText p)
  | .wrongLength count expected =>
    .other (s!"invalid length {count}, expected {expected}" ++ placeText p)

end Config

end PluginConsole
