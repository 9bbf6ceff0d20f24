import PluginConsole.Dict
import PluginConsole.Json.Basic

/-!
# The label map

The navigation of the console: titles under the path of their category. Every
segment of a path is a group, under the segment's name with a mark before it, and
labels are the leaves. All titles also stand in one flat group under a key of its
own.
-/

namespace PluginConsole

inductive LabelNode where
  | title (s : String)
  | group (members : List (String × LabelNode))
  deriving Inhabited

namespace LabelNode

abbrev Group := Dict LabelNode

def asTitle : LabelNode → Option String
  | .title s => some s
  | .group _ => none

def asGroup : LabelNode → Option Group
  | .group members => some members
  | .title _ => none

/-- The members of a group. A title or nothing in its place counts as no members. -/
def members : Option LabelNode → Group
  | some (.group members) => members
  | _ => []

mutual

def toJson : LabelNode → Json
  | .title s => .text s
  | .group members => .object (membersJson members)

def membersJson : List (String × LabelNode) → List (String × Json)
  | [] => []
  | (k, n) :: rest => (k, toJson n) :: membersJson rest

end

/-- Files a node under a key at the end of a path of groups. Groups are made on the
way, also in place of a title. -/
def insertAt (path : List String) (key : String) (node : LabelNode) (g : Group) : Group :=
  match path with
  | [] => Dict.insert key node g
  | step :: rest =>
    Dict.insert step (.group (insertAt rest key node (members (g.lookup step)))) g

def groupAt : List String → Group → Option Group
  | [], g => some g
  | step :: rest, g => (g.lookup step).bind asGroup |>.bind (groupAt rest)

end LabelNode

def flatKey := "webdeck.labelMap"

def categoryMark := "category."

/-! ## Paths -/

/-- The pieces of a text between its slashes, `done` being the piece so far in reverse. -/
def splitSlashes (done : List Char) : List Char → List String
  | [] => [String.ofList done.reverse]
  | c :: rest =>
    if c = '/' then String.ofList done.reverse :: splitSlashes [] rest
    else splitSlashes (c :: done) rest

/-- The segments of a category. Slashes at the end do not count, and slashes alone
name no segment at all. The empty category is one empty segment. -/
def segments (category : String) : List String :=
  let trimmed := (category.toList.reverse.dropWhile (· == '/')).reverse
  if trimmed.isEmpty && category ≠ "" then [] else splitSlashes [] trimmed

def categoryPath (category : String) : List String :=
  (segments category).map (categoryMark ++ ·)

/-! ## The map -/

structure LabelMap where
  root : LabelNode.Group := []
  deriving Inhabited

namespace LabelMap

def get? (m : LabelMap) (key : String) : Option LabelNode :=
  m.root.lookup key

def flat (m : LabelMap) : Dict String :=
  (LabelNode.members (m.get? flatKey)).filterMap fun (label, node) =>
    node.asTitle.map fun title => (label, title)

/-- The group of a category such as `sys/info`. -/
def category (m : LabelMap) (path : String) : Option LabelNode.Group :=
  LabelNode.groupAt (categoryPath path) m.root

def isEmpty (m : LabelMap) : Bool :=
  m.flat.isEmpty

/-- Files a title under its label, in the group of the category and in the flat one. -/
def insert (category label title : String) (m : LabelMap) : LabelMap :=
  let filed := LabelNode.insertAt (categoryPath category) label (.title title) m.root
  ⟨LabelNode.insertAt [flatKey] label (.title title) filed⟩

def toJson (m : LabelMap) : Json :=
  LabelNode.toJson (.group m.root)

end LabelMap

end PluginConsole
