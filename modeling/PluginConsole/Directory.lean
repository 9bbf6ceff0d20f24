import PluginConsole.Fault
import PluginConsole.Registry.Entry

/-!
# The service directory

Services in memory. The directory gives them increasing ids, counts the holds on
them and knows who wants to hear of which capability. Telling the listeners is left
to the caller; here stands who is to be told.
-/

namespace PluginConsole

inductive Listener where
  | registry
  /-- A listener of the application. -/
  | observer (name : String)
  deriving DecidableEq, Inhabited

structure Service where
  reference : Reference
  object : ServiceObject
  holds : Nat
  deriving Inhabited

structure Subscription where
  id : Nat
  capability : String
  listener : Listener
  deriving DecidableEq, Inhabited

structure Directory where
  /-- In the order of their ids. -/
  services : List Service := []
  /-- In the order in which they were made. -/
  subscriptions : List Subscription := []
  lastService : Nat := 0
  lastSubscription : Nat := 0
  deriving Inhabited

namespace Directory

/-! ## Filters -/

def after (start : String) (s : String) : Option String :=
  if start.toList.isPrefixOf s.toList then some (String.ofList (s.toList.drop start.length))
  else none

/-- The text without a last character `c`. -/
def before (c : Char) (s : String) : Option String :=
  match s.toList.reverse with
  | d :: rest => if d = c then some (String.ofList rest.reverse) else none
  | [] => none

def capability? (filter : String) : Option String := do
  let inner ← (after "(" filter).bind (before ')')
  let name ← (after Property.objectClass inner).bind (after "=")
  if name = "" then none else some name

def parseFilter (filter : String) : Except Fault String :=
  match capability? filter with
  | some name => .ok name
  | none => .error (.directory s!"unsupported filter `{filter}`")

/-! ## Looking -/

def find? (d : Directory) (id : Nat) : Option Service :=
  d.services.find? (·.reference.id == id)

def reference? (d : Directory) (id : Nat) : Option Reference :=
  (d.find? id).map (·.reference)

/-- Nobody holds a service that is gone. -/
def holds (d : Directory) (id : Nat) : Nat :=
  ((d.find? id).map (·.holds)).getD 0

/-- Who is to hear of a change of this service, in the order of subscription. -/
def listenersFor (d : Directory) (r : Reference) : List Listener :=
  (d.subscriptions.filter fun s => r.hasCapability s.capability).map (·.listener)

def references (d : Directory) (filter : String) : Except Fault (List Reference) :=
  (parseFilter filter).map fun capability =>
    (d.services.map (·.reference)).filter (·.hasCapability capability)

/-! ## Changing -/

def modifyService (id : Nat) (f : Service → Service) (d : Directory) : Directory :=
  { d with services := d.services.map fun s => if s.reference.id == id then f s else s }

/-- A service that names no capability has the one of the console. -/
def withCapability (properties : Dict Json) : Dict Json :=
  if Dict.has Property.objectClass properties then properties
  else Dict.insert Property.objectClass (.list [.text consoleCapability]) properties

/-- Adds a service under the next id. -/
def add (origin : String) (properties : Dict Json) (object : ServiceObject) (d : Directory) :
    Reference × Directory :=
  let r := Reference.make (d.lastService + 1) origin (withCapability properties)
  (r, { d with
    services := d.services ++ [⟨r, object, 0⟩]
    lastService := d.lastService + 1 })

/-- New properties of a service that keep its capabilities, unless they bring their own. -/
def keepCapability (old : Reference) (properties : Dict Json) : Dict Json :=
  if Dict.has Property.objectClass properties then properties
  else match old.property Property.objectClass with
    | some capability => Dict.insert Property.objectClass capability properties
    | none => properties

def replace (id : Nat) (properties : Dict Json) (d : Directory) : Option (Reference × Directory) :=
  (d.find? id).map fun s =>
    let r := Reference.make id s.reference.origin (keepCapability s.reference properties)
    (r, d.modifyService id fun s => { s with reference := r })

def remove (id : Nat) (d : Directory) : Directory :=
  { d with services := d.services.filter (·.reference.id != id) }

def subscribe (filter : String) (listener : Listener) (d : Directory) :
    Except Fault (Nat × Directory) :=
  (parseFilter filter).map fun capability =>
    let id := d.lastSubscription + 1
    (id, { d with
      subscriptions := d.subscriptions ++ [⟨id, capability, listener⟩]
      lastSubscription := id })

def unsubscribe (id : Nat) (d : Directory) : Directory :=
  { d with subscriptions := d.subscriptions.filter (·.id != id) }

def getService (id : Nat) (d : Directory) : Option ServiceObject × Directory :=
  match d.find? id with
  | none => (none, d)
  | some s => (some s.object, d.modifyService id fun s => { s with holds := s.holds + 1 })

/-- Gives one hold back; the count stops at zero. -/
def releaseService (id : Nat) (d : Directory) : Directory :=
  d.modifyService id fun s => { s with holds := s.holds - 1 }

end Directory

end PluginConsole
