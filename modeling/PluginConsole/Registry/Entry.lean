import PluginConsole.Reference
import PluginConsole.SourceKind

/-!
# Entries

One label of the console and the component behind it. A component is found when
it is first needed and kept until the entry is disposed. Here stand the data and
the order in which two entries for one label prefer each other.
-/

namespace PluginConsole

/-! ## Components -/

/-- Identity of an object of plugin code. -/
inductive Instance where
  | named (name : String)
  /-- The object that a factory made in its call of this number. -/
  | made (factory : String) (number : Nat)
  deriving DecidableEq, Inhabited

/-- What a directory hands out for a service. -/
inductive ServiceObject where
  | plugin (object : Instance)
  /-- A request handler that knows nothing of the console. -/
  | handler (object : Instance)
  /-- Of no use to the console. -/
  | other
  deriving DecidableEq, Inhabited

inductive Component where
  | plugin (object : Instance)
  /-- A handler served under a label. Its serial number is its identity. -/
  | adapted (serial : Nat) (handler : Instance) (label : String) (reference : Reference)
  deriving Inhabited

/-- Two components are the same by identity, never by content. -/
def Component.same : Component → Component → Bool
  | .plugin a, .plugin b => a == b
  | .adapted m .., .adapted n .. => m == n
  | _, _ => false

/-- A context as it was attached once. Attaching an equal one again gives another. -/
structure ContextRef where
  serial : Nat
  context : Context
  deriving Inhabited

/-! ## Entries -/

inductive Source where
  /-- Looked up in the directory on demand. -/
  | directory (reference : Reference)
  /-- Made by a factory; `known` says whether there was one of that name. -/
  | direct (factory : String) (known : Bool)
  deriving Inhabited

namespace Source

def kind : Source → SourceKind
  | .directory _ => .directory
  | .direct .. => .direct

def reference : Source → Option Reference
  | .directory r => some r
  | .direct .. => none

/-- A text property of the registration; an empty one counts as missing. -/
def property (s : Source) (key : String) : Option String :=
  (s.reference.bind (·.textProperty key)).filter (· ≠ "")

def provider : Source → String
  | .directory r => r.provider
  | .direct factory _ => factory

end Source

/-- A text that is found once. -/
inductive Cached where
  | empty
  /-- It is being found right now. -/
  | inFlight
  | resolved (s : String)
  deriving DecidableEq, Inhabited

structure Warm where
  component : Component
  /-- The context of the last initialization that was not undone. -/
  bound : Option ContextRef
  deriving Inhabited

structure Entry where
  label : String
  source : Source
  title : Cached := .empty
  category : Cached := .empty
  warm : Option Warm := none
  /-- The last attempt to find the component gave none. -/
  broken : Bool := false
  /-- Released for good. -/
  disposed : Bool := false
  /-- The next failure of a direct source will be reported. -/
  armed : Bool := true
  deriving Inhabited

namespace Entry

def kind (e : Entry) : SourceKind :=
  e.source.kind

def rank (e : Entry) : Int :=
  match e.source with
  | .directory r => r.ranking
  | .direct .. => 0

/-- The id of the service; zero for a direct source. -/
def sequenceId (e : Entry) : Nat :=
  match e.source with
  | .directory r => r.id
  | .direct .. => 0

def isWarm (e : Entry) : Bool :=
  e.warm.isSome

/-- How a newcomer stands to the holder of its label: `eq` is the same registration
again, `gt` takes the label over. The higher rank wins, then the lower id. -/
def compareRank (newcomer holder : Entry) : Ordering :=
  if newcomer.sequenceId = holder.sequenceId then .eq
  else if newcomer.rank < holder.rank then .lt
  else if holder.rank < newcomer.rank then .gt
  else if newcomer.sequenceId < holder.sequenceId then .gt
  else .lt

theorem compareRank_eq_iff {a b : Entry} :
    compareRank a b = .eq ↔ a.sequenceId = b.sequenceId := by
  unfold compareRank
  split
  · simp_all
  · split
    · simp_all
    · split
      · simp_all
      · split <;> simp_all

/-- Whether the entry belongs to the directory service of this id. -/
def ownedBy (id : Nat) (e : Entry) : Bool :=
  e.kind == .directory && e.sequenceId == id

end Entry

/-! ## What an entry does -/

/-- A dealing of an entry with its component, or with whoever gives it one. -/
inductive EntryEvent where
  | create (factory : String)
  | activate (object : Instance)
  /-- The activation went well. -/
  | activated (object : Instance)
  | acquired (c : Component)
  | title (c : Component)
  | category (c : Component)
  | init (c : Component) (ref : ContextRef) (config : InitConfig)
  | destroy (c : Component)
  | released (c : Component)
  | deactivate (object : Instance)
  /-- A hold goes back to the directory. -/
  | giveBack (reference : Reference)
  deriving Inhabited

end PluginConsole
