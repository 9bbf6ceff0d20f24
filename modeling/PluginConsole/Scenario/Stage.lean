import PluginConsole.Builtin
import PluginConsole.Console.Basic
import PluginConsole.Scenario.Cast

/-!
# The stage of a scenario

What a scenario keeps while it runs: the events that its cast tells of, the calls that
each component counted, and what its steps keep under names.
-/

namespace PluginConsole.Scenario

/-! ## Events -/

inductive Event where
  /-- A component or a factory was called. -/
  | called (name call : String) (details : List (String × Json))
  /-- A step was done in the middle of a call. -/
  | acted (name call : String) (reply : Json)
  /-- A listener heard of a service. -/
  | heard (listener : String) (event : DirectoryEvent)
  /-- A directory that only fails was asked for something. -/
  | asked (request : String) (detail : String × Json)
  deriving Inhabited

def Event.toJson : Event → Json
  | .called name call details => .record (("call", .text (name ++ "." ++ call)) :: details)
  | .acted name call reply => .record [("in", .text (name ++ "." ++ call)), ("r", reply)]
  | .heard listener event => .record [
    ("listener", .text listener), ("kind", .text event.name),
    ("id", .ofNat event.reference.id), ("label", .ofOption .text event.reference.label)]
  | .asked request detail => .record [("directory", .text request), detail]

/-! ## Counts -/

/-- What a component was last initialized with. -/
structure Setup where
  name : String
  context : String
  parameters : Dict String
  deriving Inhabited

structure Tally where
  /-- One item per call, in any order. -/
  calls : List Call := []
  setup : Option Setup := none
  deriving Inhabited

def Tally.count (t : Tally) (call : Call) : Nat :=
  t.calls.count call

/-! ## The stage -/

structure Stage where
  events : List Event := []
  tallies : List (Instance × Tally) := []
  made : Dict Nat := []
  messagesAsked : Nat := 0
  references : Dict Reference := []
  entries : Dict EntryId := []
  contexts : Dict ContextRef := []
  builtins : List Builtin := []
  console : Option Console := none
  /-- The scenario does not keep the registry any more. -/
  dropped : Bool := false
  /-- Subscriptions granted and cancelled by a directory that only fails. -/
  granted : Nat := 0
  cancelled : Nat := 0
  deriving Inhabited

/-- A step of a scenario on everything there is. -/
abbrev Play := Act (Site Stage)

namespace Stage

def tally (s : Stage) (object : Instance) : Tally :=
  (s.tallies.lookup object).getD {}

def setTally (object : Instance) (t : Tally) (s : Stage) : Stage :=
  { s with tallies := (object, t) :: s.tallies.filter (·.1 != object) }

def read : Play Stage := do
  return (← get).outside.own

def change (f : Stage → Stage) : Play Unit :=
  modify fun w => { w with outside := { w.outside with own := f w.outside.own } }

def tell (e : Event) : Play Unit :=
  change fun s => { s with events := s.events ++ [e] }

def countCall (object : Instance) (call : Call) : Play Nat := do
  let t := (← read).tally object
  change (setTally object { t with calls := call :: t.calls })
  return t.count call + 1

def rememberSetup (object : Instance) (config : InitConfig) : Play Unit := do
  let t := (← read).tally object
  change (setTally object { t with
    setup := some ⟨config.name, config.context.name, config.parameters⟩ })

def countMade (factory : String) : Play Nat := do
  let n := ((← read).made.lookup factory).getD 0 + 1
  change fun s => { s with made := Dict.insert factory n s.made }
  return n

def builtinStore : Builtin.Store (Site Stage) where
  read s := s.own.builtins
  write all s := { s with own := { s.own with builtins := all } }

def messages (book : MessageBook) : Localizer (StateM (Site Stage)) :=
  book.localizer fun f s =>
    { s with own := { s.own with messagesAsked := f s.own.messagesAsked } }

end Stage

end PluginConsole.Scenario
