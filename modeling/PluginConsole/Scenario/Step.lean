import PluginConsole.Reference
import PluginConsole.Fault

/-!
# Steps of a scenario

What a scenario can do with a registry, with the directory and the application around
it, and with a console that was started from a configuration. Steps name what they work
on: references, entries and contexts are kept under names, and components are known by
theirs.
-/

namespace PluginConsole.Scenario

inductive RefName where
  /-- As an earlier step kept it. -/
  | kept (name : String)
  | given (reference : Reference)
  deriving Inhabited

inductive EntryName where
  | kept (name : String)
  /-- The entry that holds the label now. -/
  | label (label : String)
  deriving Inhabited

/-- What is shown of a label map apart from the map. -/
structure MapView where
  locale : Option String
  defaultCategory : Option String
  paths : List String
  keys : List String
  deriving Inhabited

inductive DirectoryStep where
  | publish (origin : Option String) (properties : Dict Json) (component : String)
      (keep : Option String)
  | publishPlugin (label : String) (ranking : Int) (component : String) (keep : Option String)
  | modify (id : Nat) (properties : Dict Json) (keep : Option String)
  | withdraw (reference : RefName)
  | subscribe (filter listener : String)
  | unsubscribe (id : Nat)
  | references (filter : String)
  | filter (capability : String)
  | getService (reference : RefName)
  | releaseService (reference : RefName)
  | holds (reference : RefName)
  | reference (id : Nat)
  | summary
  deriving Inhabited

inductive RegistryStep where
  | openUp
  | close
  | addService (reference : RefName)
  | removeService (reference : RefName)
  | addDirect (factory label : String)
  | removeDirect (label : String)
  | unregister (label : String)
  | lookup (label : String) (full : Bool)
  | lookupDefault (full : Bool)
  | setDefault (label : Option String)
  | setContext (context : Option Context)
  | context
  | labelMap (view : MapView)
  | describe
  | labels
  | debug
  deriving Inhabited

inductive EntryStep where
  | makeService (reference : RefName) (keep : String)
  | makeDirect (factory label keep : String)
  | hold (label keep : String)
  /-- Moves a kept entry into the registry. -/
  | register (kept : String)
  | compare (newcomer holder : String)
  | details (entry : EntryName) (parameters : List String)
  | brief (entry : EntryName)
  | title (entry : EntryName)
  | category (entry : EntryName)
  | component (entry : EntryName) (full : Bool)
  | dispose (entry : EntryName)
  | makeContext (keep : String) (context : Context)
  /-- Against a kept context, or against the one of the registry. -/
  | init (entry : EntryName) (context : Option String)
  | destroy (entry : EntryName)
  deriving Inhabited

inductive ConsoleStep where
  | labels (locale defaultCategory : Option String)
  | plugins (json colours : Bool)
  | lookup (label : Option String)
  | config
  | labelMap (view : MapView)
  | shutdown
  deriving Inhabited

inductive Step where
  | directory (s : DirectoryStep)
  | registry (s : RegistryStep)
  | entry (s : EntryStep)
  | console (s : ConsoleStep)
  /-- The scenario lets go of the registry. -/
  | letGo
  | setDisabled (factories : List String)
  | disabled
  | localizerCalls
  | counters (component : String)
  /-- Nothing that a scenario knows. -/
  | unknown
  deriving Inhabited

namespace Step

/-- The order of what these steps cause is of no account. -/
def isUnordered : Step → Bool
  | .registry .close | .letGo | .console .shutdown => true
  | _ => false

end Step

end PluginConsole.Scenario
