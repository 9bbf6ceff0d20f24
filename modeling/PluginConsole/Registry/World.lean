import PluginConsole.Fault
import PluginConsole.Registry.Entry
import PluginConsole.Registry.Notice

/-!
# The registry and what surrounds it

The state of a registry, and the interface through which it reaches the service
directory, the application that owns it and the code of plugins. Plugin code may
call back: its calls act on the whole state. `σ` is all state outside the registry.
-/

namespace PluginConsole

/-- Position of an entry in the store; its identity. -/
abbrev EntryId := Nat

/-- Something that an entry did, with all outside the registry as it was just then. -/
structure Record (σ : Type) where
  entry : EntryId
  event : EntryEvent
  outside : σ

structure World (σ : Type) where
  /-- Every entry ever made. -/
  entries : List Entry := []
  /-- The entry that holds each label. -/
  table : Dict EntryId := []
  defaultLabel : Option String := none
  subscription : Option Nat := none
  context : Option ContextRef := none
  /-- How many keep the registry. When the last one lets go of it, it closes. -/
  keepers : Nat := 1
  /-- Entries that steps under way are working on, the innermost step first. -/
  inHand : List EntryId := []
  /-- The next identity of a context or an adapted handler. -/
  serial : Nat := 0
  log : List Notice := []
  /-- What entries did, in order. Nothing reads it: it is there to speak of whole runs. -/
  history : List (Record σ) := []
  outside : σ

/-- A step that reads and changes the world. -/
abbrev Act (σ α : Type) := StateM (World σ) α

inductive DirectoryEvent where
  | registered (reference : Reference)
  | modified (reference : Reference)
  | unregistering (reference : Reference)
  deriving Inhabited

namespace DirectoryEvent

def reference : DirectoryEvent → Reference
  | .registered r | .modified r | .unregistering r => r

def name : DirectoryEvent → String
  | .registered _ => "registered"
  | .modified _ => "modified"
  | .unregistering _ => "unregistering"

end DirectoryEvent

/-! ## Collaborators -/

structure DirectoryAccess (σ : Type) where
  subscribe : String → StateM σ (Except Fault Nat)
  unsubscribe : Nat → StateM σ Unit
  references : String → StateM σ (Except Fault (List Reference))
  /-- Takes a hold on the service. -/
  getService : Reference → StateM σ (Option ServiceObject)
  /-- Gives one hold back. -/
  releaseService : Reference → StateM σ Unit

structure HostAccess (σ : Type) where
  isDisabled : σ → String → Bool
  origin : σ → String

structure PluginCode (σ : Type) where
  hasFactory : String → Bool
  label : Instance → String
  providerName : Instance → String
  activatable : Instance → Bool
  create : String → Act σ (Outcome Instance)
  activate : Instance → Act σ (Outcome Unit)
  deactivate : Instance → Act σ (Outcome Unit)
  title : Instance → Act σ (Outcome String)
  category : Instance → Act σ (Outcome (Option String))
  init : Instance → InitConfig → Act σ (Outcome Unit)
  destroy : Instance → Act σ (Outcome Unit)
  /-- Told to the application's own listener of this name. -/
  observe : String → DirectoryEvent → Act σ Unit

structure Environment (σ : Type) where
  directory : DirectoryAccess σ
  host : HostAccess σ
  code : PluginCode σ

/-! ## Elementary steps -/

namespace World

variable {σ : Type}

def entry (w : World σ) (id : EntryId) : Entry :=
  w.entries.getD id default

def modifyEntry (id : EntryId) (f : Entry → Entry) (w : World σ) : World σ :=
  { w with entries := w.entries.modify id f }

theorem entry_modifyEntry_of_ne {id other : EntryId} (h : other ≠ id) (f : Entry → Entry)
    (w : World σ) : (w.modifyEntry id f).entry other = w.entry other := by
  simp [entry, modifyEntry, List.getD_eq_getElem?_getD, Ne.symm h]

theorem entry_modifyEntry_self {id : EntryId} (f : Entry → Entry) (w : World σ)
    (h : id < w.entries.length) : (w.modifyEntry id f).entry id = f (w.entry id) := by
  simp [entry, modifyEntry, List.getD_eq_getElem?_getD, List.getElem?_eq_getElem h]

end World

namespace Act

variable {σ α : Type}

def entry (id : EntryId) : Act σ Entry := do
  return (← get).entry id

def modifyEntry (id : EntryId) (f : Entry → Entry) : Act σ Unit :=
  modify (World.modifyEntry id f)

def note (n : Notice) : Act σ Unit :=
  modify fun w => { w with log := w.log ++ [n] }

def record (id : EntryId) (event : EntryEvent) : Act σ Unit :=
  modify fun w => { w with history := w.history ++ [⟨id, event, w.outside⟩] }

/-- A step of the surroundings alone. -/
def outside (step : StateM σ α) : Act σ α := fun w =>
  let (a, s) := step w.outside
  (a, { w with outside := s })

def freshSerial : Act σ Nat := do
  let n := (← get).serial
  modify fun w => { w with serial := n + 1 }
  return n

/-- A context by itself: no other is the same. -/
def newContext (context : Context) : Act σ ContextRef := do
  return ⟨← freshSerial, context⟩

/-- Keeps entries in hand while a step works on them. -/
def holding (ids : List EntryId) (step : Act σ α) : Act σ α := do
  let before := (← get).inHand
  modify fun w => { w with inHand := ids ++ before }
  let a ← step
  modify fun w => { w with inHand := before }
  return a

def newEntry (e : Entry) : Act σ EntryId := do
  let id := (← get).entries.length
  modify fun w => { w with entries := w.entries ++ [e] }
  return id

end Act

end PluginConsole
