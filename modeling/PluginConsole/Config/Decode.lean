import PluginConsole.Config.Tree
import PluginConsole.Decimal.Range
import PluginConsole.Text.Padding

/-!
# From a tree to a configuration

Readers for the parts of a configuration. The first problem found is the one that is
told, with the keys that lead to it and the layer it comes from: members are read in
the order of their keys, and what is missing is looked for last. A section may also
be given as the list of its fields.
-/

namespace PluginConsole.Config

inductive Problem.Cause where
  | unknownKey (key : String) (valid : List String)
  | missingKey (key : String)
  | wrongType (found : Tree) (expected : String)
  | outOfRange (found : Tree) (expected : String)
  | wrongLength (count : Nat) (expected : String)
  deriving Inhabited

structure Problem where
  path : List String
  layer : Layer
  cause : Problem.Cause
  deriving Inhabited

def Problem.under (key : String) (p : Problem) : Problem :=
  { p with path := key :: p.path }

abbrev Reader (α : Type) := Tree → Except Problem α

namespace Reader

def fail (t : Tree) (cause : Problem.Cause) : Except Problem α :=
  .error ⟨[], t.layer, cause⟩

def wrongType (t : Tree) (expected : String) : Except Problem α :=
  fail t (.wrongType t expected)

def text : Reader String
  | .leaf _ (.text s) => .ok s
  | t => wrongType t "a string"

/-- A whole number of 32 bits. -/
def int32 : Reader Int
  | .leaf l (.int n signed) =>
    if Decimal.isInt32 n then .ok n
    else fail (.leaf l (.int n signed)) (.outOfRange (.leaf l (.int n signed)) "i32")
  | t => wrongType t "i32"

def optional (read : Reader α) : Reader (Option α)
  | .leaf _ .null => .ok none
  | t => (read t).map some

def keyed (key : String) (read : Reader α) (t : Tree) : Except Problem α :=
  (read t).mapError (·.under key)

def itemsFrom (read : Reader α) : Nat → List Tree → Except Problem (List α)
  | _, [] => .ok []
  | i, t :: rest => do
    let a ← keyed (toString i) read t
    return a :: (← itemsFrom read (i + 1) rest)

def list (read : Reader α) : Reader (List α)
  | .list _ items => itemsFrom read 0 items
  | t => wrongType t "a sequence"

def members (read : Reader α) : List (String × Tree) → Except Problem (Dict α)
  | [] => .ok []
  | (k, t) :: rest => do
    let a ← keyed k read t
    return (k, a) :: (← members read rest)

def dict (read : Reader α) : Reader (Dict α)
  | .table _ entries => members read entries
  | t => wrongType t "a map"

/-! ## Sections -/

/-- One field of a section under construction. -/
structure Field (σ : Type) where
  name : String
  required : Bool
  read : Tree → σ → Except Problem σ

def defaulted (name : String) (read : Reader α) (put : α → σ → σ) : Field σ :=
  ⟨name, false, fun t s => (read t).map (put · s)⟩

def required (name : String) (read : Reader α) (put : α → σ → σ) : Field σ :=
  ⟨name, true, fun t s => (read t).map (put · s)⟩

def byName (fields : List (Field σ)) : List (String × Tree) → σ → Except Problem σ
  | [], s => .ok s
  | (k, t) :: rest, s =>
    match fields.find? (·.name == k) with
    | none => .error ⟨[k], t.layer, .unknownKey k (fields.map (·.name))⟩
    | some f => do byName fields rest (← keyed k (f.read · s) t)

/-- How long a list of all fields is, in words. -/
def lengthText (title : String) (fields : List (Field σ)) : String :=
  let unit := if fields.length = 1 then "element" else "elements"
  s!"struct {title} with {fields.length} {unit}"

/-- `i` items are read already. -/
def byPosition (whole : Tree) (tooShort : String) : Nat → List (Field σ) → List Tree → σ →
    Except Problem (σ × List Tree)
  | _, [], rest, s => .ok (s, rest)
  | i, f :: fields, [], s =>
    if f.required then fail whole (.wrongLength i tooShort)
    else byPosition whole tooShort (i + 1) fields [] s
  | i, f :: fields, t :: rest, s => do
    byPosition whole tooShort (i + 1) fields rest (← keyed (toString i) (f.read · s) t)

/-- In a `strict` reading a list must not have more items than the section has fields. -/
def record (strict : Bool) (title : String) (fields : List (Field σ)) (start : σ) : Reader σ
  | .table layer entries => do
    let s ← byName fields entries start
    match fields.find? fun f => f.required && !Dict.has f.name entries with
    | some f => .error ⟨[], layer, .missingKey f.name⟩
    | none => return s
  | .list layer items => do
    let (s, rest) ← byPosition (.list layer items) (lengthText title fields) 0 fields items start
    if strict && !rest.isEmpty then
      fail (.list layer items) (.wrongLength items.length "fewer elements in array")
    else
      return s
  | t => wrongType t ("struct " ++ title)

end Reader

/-! ## The sections of a configuration -/

open Reader

def pluginSpec (strict : Bool) : Reader PluginSpec :=
  record strict "InternalPluginConfig" [
    required "factory" text fun v s => { s with factory := v },
    required "label" text fun v s => { s with label := v }] ⟨"", ""⟩

def serviceSpec (strict : Bool) : Reader ServiceSpec :=
  record strict "ServiceConfig" [
    required "label" text fun v s => { s with label := v },
    required "handler" text fun v s => { s with handler := v },
    defaulted "title" (optional text) fun v s => { s with title := v },
    defaulted "category" (optional text) fun v s => { s with category := v },
    defaulted "ranking" (optional int32) fun v s => { s with ranking := v },
    defaulted "provider" (optional text) fun v s => { s with provider := v },
    defaulted "origin" text fun v s => { s with origin := v }] { label := "", handler := "" }

def consoleSection (strict : Bool) : Reader ConsoleSection :=
  record strict "ConsoleConfig" [
    defaulted "default_label" (optional text) fun v s => { s with defaultLabel := v },
    defaulted "default_category" text fun v s => { s with defaultCategory := v },
    defaulted "locale" text fun v s => { s with locale := v },
    defaulted "log_level" text fun v s => { s with logLevel := v },
    defaulted "disabled_plugins" (list text) fun v s => { s with disabledPlugins := v },
    defaulted "plugins" (list (pluginSpec strict)) fun v s => { s with plugins := v }] {}

def directorySection (strict : Bool) : Reader (List ServiceSpec) :=
  record strict "DirectoryConfig" [
    defaulted "services" (list (serviceSpec strict)) fun v _ => v] []

def ofTree (strict : Bool) : Reader Config :=
  record strict "WebdeckConfig" [
    defaulted "console" (consoleSection strict) fun v s => { s with console := v },
    defaulted "directory" (directorySection strict) fun v s => { s with services := v },
    defaulted "i18n" (dict (dict text)) fun v s => { s with messages := v }] {}

/-! ## Reading JSON -/

/-- `a`, then ` or ` between two, and `one of` before more. -/
def alternatives (names : List String) : String :=
  let quoted := names.map fun n => s!"`{n}`"
  match quoted with
  | [a] => a
  | [a, b] => a ++ " or " ++ b
  | _ => "one of " ++ Text.join ", " quoted

def Problem.jsonText (p : Problem) : String :=
  match p.cause with
  | .unknownKey key valid => s!"unknown field `{key}`, expected " ++ alternatives valid
  | .missingKey key => s!"missing field `{key}`"
  | .wrongType found expected => "invalid type: " ++ found.jsonKindText ++ ", expected " ++ expected
  | .outOfRange found expected =>
    "invalid value: " ++ found.jsonKindText ++ ", expected " ++ expected
  | .wrongLength count expected => s!"invalid length {count}, expected {expected}"

def ofJson (v : Json) : Except String Config :=
  (ofTree true (.ofJson v)).mapError Problem.jsonText

end PluginConsole.Config
