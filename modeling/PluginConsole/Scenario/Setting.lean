import PluginConsole.Scenario.Stage

/-!
# Settings of a scenario

What surrounds the registry: a directory in memory, a console started from a
configuration, or a directory that fails on purpose.
-/

namespace PluginConsole.Scenario

inductive FailurePoint where
  | subscribe
  | references
  deriving DecidableEq, Inhabited

inductive Setting where
  /-- A closed registry over an empty directory. -/
  | plain
  /-- The same with a module of its own, for trying out components. -/
  | harness (opened : Bool)
  /-- A console from a TOML text. -/
  | console (toml : String)
  /-- A directory that refuses one kind of request. -/
  | refusing (point : FailurePoint)
  /-- A directory that tells of every request and fails at most one kind. -/
  | telling (point : Option FailurePoint) (f : Fault)
  deriving Inhabited

/-- The module of a harness and of what it publishes. -/
def harnessOrigin := "test-bundle"

namespace Setting

/-- Whether services can be published. -/
def isLocal : Setting → Bool
  | .refusing _ | .telling .. => false
  | _ => true

/-- Whether the steps of a scenario reach the directory. -/
def isOpenDirectory : Setting → Bool
  | .telling .. => false
  | _ => true

/-- Whether something besides the scenario keeps the registry. -/
def isKept : Setting → Bool
  | .harness _ | .console _ => true
  | _ => false

def isHarness : Setting → Bool
  | .harness _ => true
  | _ => false

def isConsole : Setting → Bool
  | .console _ => true
  | _ => false

end Setting

/-! ## Directories that fail -/

variable {α : Type}

def onStage (f : Stage → α × Stage) : StateM (Site Stage) α := fun s =>
  let (a, own) := f s.own
  (a, { s with own })

/-- Grants subscriptions by number, and has no services. -/
def refusingDirectory (point : FailurePoint) : DirectoryAccess (Site Stage) where
  subscribe _ := onStage fun s =>
    if point = .subscribe then (.error (.directory "subscription refused"), s)
    else (.ok (s.granted + 1), { s with granted := s.granted + 1 })
  unsubscribe _ := onStage fun s => ((), { s with cancelled := s.cancelled + 1 })
  references _ :=
    return if point = .references then .error (.directory "enumeration refused") else .ok []
  getService _ := return none
  releaseService _ := return ()

def tellRequest (request : String) (detail : String × Json) : StateM (Site Stage) Unit :=
  onStage fun s => ((), { s with events := s.events ++ [.asked request detail] })

/-- The one subscription that a telling directory has. -/
def onlySubscription := 41

def tellingDirectory (point : Option FailurePoint) (f : Fault) : DirectoryAccess (Site Stage) where
  subscribe filter := do
    tellRequest "subscribe" ("filter", .text filter)
    return if point = some .subscribe then .error f else .ok onlySubscription
  unsubscribe id := tellRequest "unsubscribe" ("id", .ofNat id)
  references filter := do
    tellRequest "references" ("filter", .text filter)
    return if point = some .references then .error f else .ok []
  getService r := do
    tellRequest "get_service" ("id", .ofNat r.id)
    return none
  releaseService r := tellRequest "release_service" ("id", .ofNat r.id)

def Setting.directory : Setting → DirectoryAccess (Site Stage)
  | .refusing point => refusingDirectory point
  | .telling point f => tellingDirectory point f
  | _ => Site.directoryAccess

end PluginConsole.Scenario
