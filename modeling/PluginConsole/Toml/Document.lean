import PluginConsole.Toml.Basic

/-!
# A document under construction

Tables are opened by headers and by dotted keys, and each may be opened in one way
only. A table that only lies on the way to another is implicit until its own header
comes. Every step fails where a key or a table would be defined twice.
-/

namespace PluginConsole.Toml

mutual

inductive Item where
  | value (v : Toml)
  | table (t : Table)
  | tables (ts : List Table)

inductive Table where
  | mk (implicit dotted : Bool) (entries : List (String × Item))

end

namespace Table

def implicit : Table → Bool
  | mk i _ _ => i

def dotted : Table → Bool
  | mk _ d _ => d

def entries : Table → Dict Item
  | mk _ _ es => es

def empty : Table :=
  mk false false []

/-- A table made on the way, by a dotted key or by a header. -/
def onTheWay (dotted : Bool) : Table :=
  mk true dotted []

def put (key : String) (item : Item) : Table → Table
  | mk i d es => mk i d (Dict.insert key item es)

def drop (key : String) : Table → Table
  | mk i d es => mk i d (Dict.erase key es)

/-- A table that has its header. -/
def headed : Table → Table
  | mk _ _ es => mk false false es

/-- Changes the table at the end of a path. Of repeated tables the last is meant. A
dotted key does not reach into a table that is complete. -/
def within (byDots : Bool) (path : List String) (f : Table → Option (α × Table)) (t : Table) :
    Option (α × Table) :=
  match path with
  | [] => f t
  | key :: rest =>
    match t.entries.lookup key with
    | none => do
      let (a, child) ← within byDots rest f (onTheWay byDots)
      some (a, t.put key (.table child))
    | some (.value _) => none
    | some (.table child) =>
      if byDots && !child.implicit then none
      else do
        let (a, child) ← within byDots rest f child
        some (a, t.put key (.table child))
    | some (.tables ts) => do
      let last ← ts.getLast?
      let (a, last) ← within byDots rest f last
      some (a, t.put key (.tables (ts.dropLast ++ [last])))

/-- Defines a dotted key. A table opened by a header takes no dotted keys from afar,
and a table opened by dots takes no others. -/
def define (path : List String) (key : String) (v : Toml) (t : Table) : Option Table :=
  (within true path (fun t =>
    if t.dotted == path.isEmpty || Dict.has key t.entries then none
    else some ((), t.put key (.value v))) t).map Prod.snd

end Table

mutual

def Item.toToml : Item → Toml
  | .value v => v
  | .table t => t.toToml
  | .tables ts => .list (tablesToml ts)

def Table.toToml : Table → Toml
  | .mk _ _ es => .table (entriesToml es)

def tablesToml : List Table → List Toml
  | [] => []
  | t :: rest => t.toToml :: tablesToml rest

def entriesToml : List (String × Item) → List (String × Toml)
  | [] => []
  | (k, item) :: rest => (k, item.toToml) :: entriesToml rest

end

/-! ## Headers -/

def splitLast (path : List String) : Option (List String × String) :=
  path.getLast?.map fun key => (path.dropLast, key)

structure Document where
  root : Table := .empty
  current : Table := .empty
  path : List String := []
  /-- Whether the header is a repeated one. -/
  repeated : Bool := false

namespace Document

def finish (d : Document) : Option Table :=
  match splitLast d.path with
  | none => some d.current
  | some (way, key) =>
    (Table.within false way (fun parent =>
      match parent.entries.lookup key, d.repeated with
      | none, true => some ((), parent.put key (.tables [d.current]))
      | some (.tables ts), true => some ((), parent.put key (.tables (ts ++ [d.current])))
      | none, false => some ((), parent.put key (.table d.current))
      | _, _ => none) d.root).map Prod.snd

/-- A header for one table. Only an implicit table may still get its header. -/
def openTable (path : List String) (d : Document) : Option Document := do
  let root ← d.finish
  let (way, key) ← splitLast path
  let (current, root) ← Table.within false way (fun parent =>
    match parent.entries.lookup key with
    | none => some (Table.empty, parent)
    | some (.table t) =>
      if t.implicit && !t.dotted then some (t.headed, parent.drop key) else none
    | _ => none) root
  some { root, current, path, repeated := false }

/-- A header for one more of several tables. -/
def openRepeated (path : List String) (d : Document) : Option Document := do
  let root ← d.finish
  let (way, key) ← splitLast path
  let (_, root) ← Table.within false way (fun parent =>
    match parent.entries.lookup key with
    | none => some ((), parent.put key (.tables []))
    | some (.tables _) => some ((), parent)
    | _ => none) root
  some { root, current := .empty, path, repeated := true }

def define (path : List String) (key : String) (v : Toml) (d : Document) : Option Document :=
  (d.current.define path key v).map fun t => { d with current := t }

end Document

end PluginConsole.Toml
