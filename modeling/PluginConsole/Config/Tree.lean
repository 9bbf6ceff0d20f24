import PluginConsole.Config.Basic
import PluginConsole.Decimal.Format
import PluginConsole.Text.Quoted

/-!
# Values before they are a configuration

A tree of values in which everything remembers the layer it was read from. Layers
lie over each other: tables merge key by key, all else replaces.
-/

namespace PluginConsole.Config

inductive Layer where
  | defaults
  /-- A text given directly. -/
  | inline
  | file (path : String)
  | environment
  deriving DecidableEq, Inhabited

inductive Leaf where
  | null
  | bool (b : Bool)
  | int (n : Int) (signed : Bool)
  | float (x : Binary64)
  | text (s : String)
  deriving DecidableEq, Inhabited

inductive Tree where
  | leaf (layer : Layer) (v : Leaf)
  | list (layer : Layer) (items : List Tree)
  | table (layer : Layer) (members : List (String × Tree))
  deriving Inhabited

namespace Tree

def layer : Tree → Layer
  | .leaf l _ | .list l _ | .table l _ => l

/-! ## From other values -/

mutual

def ofJson : Json → Tree
  | .null => .leaf .inline .null
  | .bool b => .leaf .inline (.bool b)
  | .int n => .leaf .inline (.int n true)
  | .float x => .leaf .inline (.float x)
  | .text s => .leaf .inline (.text s)
  | .list items => .list .inline (itemsOfJson items)
  | .object members => .table .inline (membersOfJson members)

def itemsOfJson : List Json → List Tree
  | [] => []
  | v :: rest => ofJson v :: itemsOfJson rest

def membersOfJson : List (String × Json) → List (String × Tree)
  | [] => []
  | (k, v) :: rest => (k, ofJson v) :: membersOfJson rest

end

/-- The key under which a date stands in the table that it is read as. -/
def dateKey := "$__toml_private_datetime"

mutual

def ofToml (layer : Layer) : Toml → Tree
  | .bool b => .leaf layer (.bool b)
  | .int n => .leaf layer (.int n true)
  | .float x => .leaf layer (.float x)
  | .text s => .leaf layer (.text s)
  | .date s => .table layer [(dateKey, .leaf layer (.text s))]
  | .list items => .list layer (itemsOfToml layer items)
  | .table members => .table layer (membersOfToml layer members)

def itemsOfToml (layer : Layer) : List Toml → List Tree
  | [] => []
  | v :: rest => ofToml layer v :: itemsOfToml layer rest

def membersOfToml (layer : Layer) : List (String × Toml) → List (String × Tree)
  | [] => []
  | (k, v) :: rest => (k, ofToml layer v) :: membersOfToml layer rest

end

/-! ## Layers -/

mutual

/-- `upper` lies on `lower`. -/
def merge (lower upper : Tree) : Tree :=
  match upper with
  | .table layer members =>
    match lower with
    | .table _ below => .table layer (mergeMembers below members)
    | _ => .table layer members
  | _ => upper

def mergeMembers (below : Dict Tree) : List (String × Tree) → Dict Tree
  | [] => below
  | (k, v) :: rest =>
    let merged := match below.lookup k with
      | some old => merge old v
      | none => v
    mergeMembers (Dict.insert k merged below) rest

end

/-! ## What a value is called -/

/-- In messages about the layers. -/
def kindText : Tree → String
  | .leaf _ .null => "unit"
  | .leaf _ (.bool b) => if b then "bool true" else "bool false"
  | .leaf _ (.int n true) => s!"signed int `{n}`"
  | .leaf _ (.int n false) => s!"unsigned int `{n}`"
  | .leaf _ (.float x) => "float `" ++ Decimal.plain x ++ "`"
  | .leaf _ (.text s) => "string " ++ Text.quote s
  | .list .. => "sequence"
  | .table .. => "map"

/-- In messages about JSON. -/
def jsonKindText : Tree → String
  | .leaf _ .null => "null"
  | .leaf _ (.bool b) => if b then "boolean `true`" else "boolean `false`"
  | .leaf _ (.int n _) => s!"integer `{n}`"
  | .leaf _ (.float x) => "floating point `" ++ Decimal.short x ++ "`"
  | .leaf _ (.text s) => "string " ++ Text.quote s
  | .list .. => "sequence"
  | .table .. => "map"

end Tree

end PluginConsole.Config
