import PluginConsole.Directory
import PluginConsole.Registry.Table

/-!
# A registry over a directory

The directory in memory and the application around one registry, and the steps that
change the directory and tell its listeners.
-/

namespace PluginConsole

/-- The application that owns the registry. -/
structure Host where
  /-- The module whose messages localize the titles of its own plugins. -/
  origin : String
  /-- Factories that are switched off, in ascending order. -/
  disabled : List String
  deriving Inhabited

namespace Host

/-- In ascending order and without repetitions. -/
def normalize (ids : List String) : List String :=
  Dict.keys (Dict.ofList (ids.map fun id => (id, ())))

def make (origin : String) (disabled : List String) : Host :=
  ⟨origin, normalize disabled⟩

def isDisabled (h : Host) (factory : String) : Bool :=
  h.disabled.contains factory

end Host

structure Site (π : Type) where
  directory : Directory
  host : Host
  own : π

namespace Site

open Act

variable {π : Type}

def onDirectory (f : Directory → α × Directory) : StateM (Site π) α := fun s =>
  let (a, d) := f s.directory
  (a, { s with directory := d })

/-- The directory in memory as the registry sees it. -/
def directoryAccess : DirectoryAccess (Site π) where
  subscribe filter := onDirectory fun d =>
    match d.subscribe filter .registry with
    | .ok (id, d) => (.ok id, d)
    | .error f => (.error f, d)
  unsubscribe id := onDirectory fun d => ((), d.unsubscribe id)
  references filter := onDirectory fun d => (d.references filter, d)
  getService r := onDirectory fun d => d.getService r.id
  releaseService r := onDirectory fun d => ((), d.releaseService r.id)

def hostAccess : HostAccess (Site π) where
  isDisabled s factory := s.host.isDisabled factory
  origin s := s.host.origin

def environment (code : PluginCode (Site π)) : Environment (Site π) :=
  { directory := directoryAccess, host := hostAccess, code }

/-! ## Changes of the directory -/

variable (env : Environment (Site π))

def deliver (event : DirectoryEvent) : Listener → Act (Site π) Unit
  | .registry => Registry.directoryChanged env event
  | .observer name => env.code.observe name event

def current : Act (Site π) Directory := do
  return (← get).outside.directory

def publish (origin : String) (properties : Dict Json) (object : ServiceObject) :
    Act (Site π) Reference := do
  let r ← outside (onDirectory (Directory.add origin properties object))
  ((← current).listenersFor r).forM (deliver env (.registered r))
  return r

def modifyService (id : Nat) (properties : Dict Json) : Act (Site π) (Option Reference) := do
  match (← current).replace id properties with
  | none => return none
  | some (r, d) =>
    outside (onDirectory fun _ => ((), d))
    (d.listenersFor r).forM (deliver env (.modified r))
    return some r

/-- Announces that a service will go, then removes it. Its listeners may still give
back their holds. -/
def withdraw (reference : Reference) : Act (Site π) Bool := do
  let d ← current
  match d.reference? reference.id with
  | none => return false
  | some now =>
    (d.listenersFor now).forM (deliver env (.unregistering now))
    let gone := ((← current).find? reference.id).isSome
    outside (onDirectory fun d => ((), d.remove reference.id))
    return gone

def setDisabled (ids : List String) : Act (Site π) Unit :=
  modify fun w => { w with
    outside := { w.outside with
      host := { w.outside.host with disabled := Host.normalize ids } } }

end Site

end PluginConsole
