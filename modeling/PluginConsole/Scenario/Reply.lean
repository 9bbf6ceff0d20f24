import PluginConsole.Console.Commands
import PluginConsole.Scenario.Performance

/-!
# Replies

How the results of steps are shown: as JSON, with `null` for nothing.
-/

namespace PluginConsole.Scenario.Reply

/-- What a step needs does not exist. -/
def absent : Json := .text "absent"

def done : Json := .null

def fault (f : Fault) : Json :=
  .record [("error", .text f.kind), ("message", .text f.message)]

/-- A panic that nothing contained. -/
def failure : Failure → Json
  | .fault f => fault f
  | .panic payload => .record [("panic", .text (panicText payload))]

def attempt : Except Fault Unit → Json
  | .ok () => .text "ok"
  | .error f => fault f

def reference (r : Reference) : Json :=
  .record [("id", .ofNat r.id), ("origin", .text r.origin), ("props", .object r.properties)]

/-- An object as a directory hands it out. -/
def serviceObject (code : PluginCode (Site Stage)) : ServiceObject → Json
  | .plugin object => .text ("Plugin(" ++ Text.quote (code.providerName object) ++ ")")
  | .handler object => .text ("Handler(" ++ Text.quote (code.providerName object) ++ ")")
  | .other => .text "Other"

def ordering : Ordering → Json
  | .lt => .text "Less"
  | .eq => .text "Equal"
  | .gt => .text "Greater"

def flagText (b : Bool) : String :=
  if b then "true" else "false"

/-! ## Entries -/

variable (env : Environment (Site Stage))

/-- Kind, rank, id, and whether the entry is warm, broken and enabled. -/
def brief (w : World (Site Stage)) (e : Entry) : Json := .list [
  .text e.kind.name, .int e.rank, .ofNat e.sequenceId, .bool e.isWarm, .bool e.broken,
  .bool (Lifecycle.isEnabled env w e)]

def entryDebug (e : Entry) : String :=
  "PluginEntry \x7b label: " ++ Text.quote e.label ++ ", kind: " ++ e.kind.title ++
    ", rank: " ++ toString e.rank ++ ", sequence_id: " ++ toString e.sequenceId ++
    ", warm: " ++ flagText e.isWarm ++ " \x7d"

def source : Source → Json
  | .directory r => .record [("ref", .ofNat r.id), ("provider", .text r.provider)]
  | .direct factory known => .record [
    ("factory", .text factory),
    ("debug", .text ("DirectEntry \x7b factory_id: " ++ Text.quote factory ++ ", factory: " ++
      flagText known ++ " \x7d"))]

def details (w : World (Site Stage)) (e : Entry) (parameters : List String) : Json :=
  let value (name : String) : Json :=
    .ofOption .text (e.source.reference.bind (·.parameter name))
  .record [
    ("brief", brief env w e), ("debug", .text (entryDebug e)), ("label", .text e.label),
    ("names", .texts ((e.source.reference.map (·.propertyNames)).getD [])),
    ("origin", .text (Lifecycle.origin env w e)), ("params", .list (parameters.map value)),
    ("provider", .text e.source.provider), ("source", source e.source)]

/-! ## Components -/

def componentBase (c : Component) : List (String × Json) := [
  ("label", .text (Lifecycle.labelOf env c)), ("provider", .text (Lifecycle.providerOf env c))]

/-- With title and category as the component itself gives them, if all is asked for. -/
def component (full : Bool) : Option Component → Play (Outcome Json)
  | none => return .ok .null
  | some c => do
    if !full then
      return .ok (.record (componentBase env c))
    match ← Lifecycle.callTitle env c with
    | .error f => return .error f
    | .ok title =>
      match ← Lifecycle.callCategory env c with
      | .error f => return .error f
      | .ok category =>
        return .ok (.record (componentBase env c ++
          [("title", .text title), ("category", .ofOption .text category)]))

/-! ## Maps and listings -/

def group (g : LabelNode.Group) : Json :=
  (LabelNode.group g).toJson

/-- The title at a key, and the size of the group there. -/
def node (n : LabelNode) : Json :=
  .list [.ofOption .text n.asTitle, .ofOption .ofNat (n.asGroup.map (·.length))]

def labelMap (view : MapView) (m : LabelMap) : Json := .record [
  ("map", m.toJson), ("flat", .table m.flat), ("empty", .bool m.isEmpty),
  ("roots", .ofNat m.root.length),
  ("paths", .list (view.paths.map fun p => .ofOption group (m.category p))),
  ("keys", .list (view.keys.map fun k => .ofOption node (m.get? k)))]

def labels (w : World (Site Stage)) : Json := .record [
  ("labels", .texts (Dict.keys w.table)), ("len", .ofNat w.table.length),
  ("empty", .bool w.table.isEmpty)]

def registryDebug (w : World (Site Stage)) : Json :=
  .text ("PluginRegistry \x7b labels: " ++ Text.quoteList (Dict.keys w.table) ++ ", open: " ++
    flagText (Registry.isOpen w) ++ " \x7d")

def context (c : Context) : Json :=
  .list [.text c.name, .table c.attributes]

/-- A text that a command of the console printed, if it found something to print. -/
def printed : Option String → Json
  | some text => .record [("found", .bool true), ("text", .text text)]
  | none => .record [("found", .bool false), ("text", .text "")]

/-! ## Counts -/

def counts (t : Tally) (calls : List Call) : List (String × Json) :=
  calls.map fun call => (call.name, .ofNat (t.count call))

def tally (t : Tally) : Role → Json
  | .mock _ => .record (counts t Call.all ++ [
    ("last_name", .ofOption (fun s => .text s.name) t.setup),
    ("last_context", .ofOption (fun s => .text s.context) t.setup),
    ("last_id", .ofOption .text (t.setup.bind (·.parameters.lookup Property.serviceId)))])
  | .mockHandler => .record (("info", .text "mock handler") :: counts t [.init, .destroy])
  | .player _ | .handler _ => .record (counts t Call.all)
  | .other => .null

end PluginConsole.Scenario.Reply
