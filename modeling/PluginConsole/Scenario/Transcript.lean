import PluginConsole.Config.Load
import PluginConsole.Json.Printer
import PluginConsole.Scenario.Enactment

/-!
# Transcripts

The run of a scenario from its setting to its last step, with what every step replied,
what was told and noted on the way, and how things stood afterwards.
-/

namespace PluginConsole

def Notice.toJson (n : Notice) : Json :=
  .record [("l", .text n.level), ("m", .text n.words), ("f", .object n.fields)]

namespace Scenario

structure Scene where
  reply : Json
  events : List Json
  log : List Json
  state : Json
  deriving Inhabited

structure Transcript where
  startLog : List Notice
  scenes : List Scene
  deriving Inhabited

/-- Why there is no console to run a scenario on. -/
inductive StartFailure where
  | config (errors : List ConfigError)
  | start (f : Fault)
  deriving Inhabited

def Scene.toJson (s : Scene) : Json := .record [
  ("r", s.reply), ("ev", .list s.events), ("log", .list s.log), ("st", s.state)]

def Transcript.toJson (t : Transcript) : Json := .record [
  ("start_log", .list (t.startLog.map (·.toJson))),
  ("steps", .list (t.scenes.map (·.toJson)))]

variable (s : Scenario)

/-! ## The state of things -/

/-- A directory that only fails counts in 64 bits: to cancel more than it granted wraps around. -/
def subscribers (site : Site Stage) : Nat :=
  match s.setting with
  | .refusing _ => (UInt64.ofNat site.own.granted - UInt64.ofNat site.own.cancelled).toNat
  | .telling .. => 0
  | _ => site.directory.subscriptions.length

/-- Nothing is seen of a registry that the scenario let go of. -/
def registryState (w : World (Site Stage)) : List (String × Json) :=
  let env := s.outerEnvironment
  if w.outside.own.dropped then
    [("open", .null), ("entries", .object []), ("default", .null), ("ctx", .null)]
  else [
    ("open", .bool (Registry.isOpen w)),
    ("entries", .object (w.table.mapValues fun id => Reply.brief env w (w.entry id))),
    ("default", .ofOption .text w.defaultLabel),
    ("ctx", .ofOption (fun r => .text r.context.name) w.context)]

def state (w : World (Site Stage)) : Json :=
  let services := w.outside.directory.services.map fun v =>
    (toString v.reference.id, Json.ofNat v.holds)
  .record (s.registryState w ++ [
    ("services", .record services), ("subs", .ofNat (s.subscribers w.outside))])

/-! ## Running -/

/-- In the order of their compact texts. -/
def sorted (items : List Json) : List Json :=
  items.mergeSort fun a b => a.compact ≤ b.compact

def takeLog : Play (List Notice) := do
  let log := (← get).log
  modify fun w => { w with log := [] }
  return log

def takeEvents : Play (List Event) := do
  let events := (← Stage.read).events
  Stage.change fun st => { st with events := [] }
  return events

def scene (step : Step) : Play Scene := do
  let reply := match ← s.perform depthLimit step with
    | .ok reply => reply
    | .error f => Reply.failure f
  let inOrder := if step.isUnordered then sorted else id
  let events := inOrder ((← takeEvents).map (·.toJson))
  let log := inOrder ((← takeLog).map (·.toJson))
  return { reply, events, log, state := s.state (← get) }

def scenes : List Step → Play (List Scene)
  | [] => return []
  | step :: rest => do
    let first ← s.scene step
    return first :: (← scenes rest)

def hostOrigin : String :=
  if s.setting.isHarness then harnessOrigin else s.origin

/-- Everything before the first step, apart from a console. -/
def plainSite : Site Stage :=
  { directory := {}, host := .make s.hostOrigin s.disabled, own := {} }

def prepare : Play Unit := do
  match s.setting with
  | .harness true => discard (Registry.openRegistry s.outerEnvironment)
  | _ => return ()

def rest : Play Transcript := do
  if s.setting.isKept then
    Registry.keep
  let startLog ← takeLog
  discard takeEvents
  return { startLog, scenes := ← s.scenes s.steps }

def onConsole (c : Config) : Except StartFailure Transcript :=
  let env := s.outerEnvironment
  let (started, w) := (Console.start env Stage.builtinStore c).run { outside := Console.site c {} }
  match started with
  | .error f => .error (.start f)
  | .ok console => .ok (((do
      Stage.change fun st => { st with console := some console }
      s.rest : Play Transcript).run w).1)

def run : Except StartFailure Transcript :=
  match s.setting with
  | .console toml =>
    match Config.loadText toml with
    | .ok c => s.onConsole c
    | .error errors => .error (.config errors)
  | _ => .ok (((do
      s.prepare
      s.rest : Play Transcript).run { outside := s.plainSite }).1)

end Scenario

end PluginConsole
