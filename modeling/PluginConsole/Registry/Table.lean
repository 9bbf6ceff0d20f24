import PluginConsole.LabelMap
import PluginConsole.Localization
import PluginConsole.Registry.Lifecycle
import PluginConsole.Text.Blank

/-!
# The table of labels

One entry per label. Entries come from services of the directory and from plugins
that the application makes itself; when two want one label, the higher rank has it,
then the earlier registration. The loser is disposed.
-/

namespace PluginConsole.Registry

open Act

variable {σ : Type} (env : Environment σ)

def capabilityFilter (capability : String) : String :=
  "(" ++ Property.objectClass ++ "=" ++ capability ++ ")"

/-! ## Registration -/

/-- Disposes an entry that no label leads to any more. -/
def retire (id : EntryId) : Act σ Unit :=
  holding [id] (Lifecycle.dispose env id)

/-- Puts an entry under its label, or disposes it in favour of the holder. -/
def register (id : EntryId) : Act σ Unit := do
  let w ← get
  let e := w.entry id
  match w.table.lookup e.label with
  | none => modify fun w => { w with table := Dict.insert e.label id w.table }
  | some holderId =>
    let holder := w.entry holderId
    match e.compareRank holder with
    | .eq => retire env id
    | .gt =>
      note (.overwritten e.label holder.source.provider e.source.provider)
      modify fun w => { w with table := Dict.insert e.label id w.table }
      retire env holderId
    | .lt =>
      note (.refused e.label holder.source.provider e.source.provider)
      retire env id

/-- An entry for a service; none if the service has no label. -/
def serviceEntry (reference : Reference) : Act σ (Option EntryId) :=
  match reference.label with
  | none => return none
  | some label => return some (← newEntry { label, source := .directory reference })

/-- An entry for a plugin of a factory. Without the factory it will never resolve. -/
def directEntry (factory label : String) : Act σ EntryId := do
  let known := env.code.hasFactory factory
  if !known then
    note (.factoryMissing factory)
  newEntry { label, source := .direct factory known }

def addService (reference : Reference) : Act σ Unit := do
  match ← serviceEntry reference with
  | some id => register env id
  | none => return ()

def addDirect (factory label : String) : Act σ Unit := do
  register env (← directEntry env factory label)

/-! ## Removal -/

def unregister (label : String) : Act σ Bool := do
  match (← get).table.lookup label with
  | none => return false
  | some id =>
    modify fun w => { w with table := Dict.erase label w.table }
    retire env id
    return true

def removeDirect (label : String) : Act σ Bool :=
  unregister env label

/-- The label that a service holds: the one it announces, else any. -/
def heldLabel (w : World σ) (reference : Reference) : Option String :=
  let owned (id : EntryId) : Bool := (w.entry id).ownedBy reference.id
  let announced := reference.label.filter fun label => (w.table.lookup label).any owned
  announced.or ((w.table.find? fun (_, id) => owned id).map Prod.fst)

def removeService (reference : Reference) : Act σ Unit := do
  match heldLabel (← get) reference with
  | none => return ()
  | some label => discard (unregister env label)

/-! ## Opening and closing -/

def isOpen (w : World σ) : Bool :=
  w.subscription.isSome

def subscriptionFault (filter : String) : Fault → Fault
  | .subscription f m => .subscription f m
  | f => .subscription filter f.message

/-- Takes the subscription out of its place. -/
def takeSubscription : Act σ (Option Nat) := do
  let s := (← get).subscription
  modify fun w => { w with subscription := none }
  return s

def cancel : Act σ Unit := do
  match ← takeSubscription with
  | some s => outside (env.directory.unsubscribe s)
  | none => return ()

/-- Subscribes to the directory and takes over what it already has. An open registry
stays as it is. -/
def openRegistry : Act σ (Except Fault Unit) := do
  if isOpen (← get) then
    return .ok ()
  let filter := capabilityFilter consoleCapability
  match ← outside (env.directory.subscribe filter) with
  | .error f => return .error (subscriptionFault filter f)
  | .ok s =>
    modify fun w => { w with subscription := some s }
    match ← outside (env.directory.references filter) with
    | .error f =>
      cancel env
      return .error (subscriptionFault filter f)
    | .ok references =>
      references.forM (addService env)
      note (.registryOpened (← get).table.length)
      return .ok ()

/-- Disposes entries one after the other. Those to come are in hand as well. -/
def retireAll : List EntryId → Act σ Unit
  | [] => return ()
  | id :: rest => do
    holding (id :: rest) (Lifecycle.dispose env id)
    retireAll rest

/-- Cancels the subscription, empties the table and disposes every entry. -/
def closeRegistry : Act σ Unit := do
  cancel env
  let table := (← get).table
  modify fun w => { w with table := [] }
  retireAll env (table.map Prod.snd)
  modify fun w => { w with defaultLabel := none }
  if !table.isEmpty then
    note (.registryClosed table.length)

/-! ## Keeping and letting go -/

def keep : Act σ Unit :=
  modify fun w => { w with keepers := w.keepers + 1 }

/-- The last one to let go closes the registry. -/
def letGo : Act σ Unit := do
  let left := (← get).keepers - 1
  modify fun w => { w with keepers := left }
  if left = 0 then
    closeRegistry env

/-- Keeps the registry while a step works with it. -/
def keeping {α : Type} (step : Act σ α) : Act σ α := do
  keep
  let a ← step
  letGo env
  return a

/-- Tells the registry what happened in the directory. One that nobody keeps does not
listen any more. -/
def directoryChanged (event : DirectoryEvent) : Act σ Unit := do
  if (← get).keepers = 0 then
    return ()
  keeping env (match event with
    | .registered reference => addService env reference
    | .unregistering reference => removeService env reference
    | .modified _ => return ())

/-! ## Looking up -/

/-- The entries in the order of their labels, as they are now. -/
def snapshot (w : World σ) : List EntryId :=
  w.table.map Prod.snd

/-- The first component that can be found; the entries after it are left alone. -/
def firstComponent : List EntryId → Act σ (Option Component)
  | [] => return none
  | id :: rest => do
    match ← Lifecycle.component env id with
    | some c => return some c
    | none => firstComponent rest

/-- The empty label stands for the first one that resolves. -/
def lookup (label : String) : Act σ (Option Component) := do
  if label = "" then
    let ids := snapshot (← get)
    holding ids (firstComponent env ids)
  else
    match (← get).table.lookup label with
    | none => return none
    | some id => holding [id] (Lifecycle.component env id)

def lookupDefault : Act σ (Option Component) := do
  match (← get).defaultLabel with
  | none => lookup env ""
  | some label =>
    match ← lookup env label with
    | some c => return some c
    | none => lookup env ""

def setDefaultLabel (label : Option String) : Act σ Unit :=
  modify fun w => { w with defaultLabel := label }

/-! ## Navigation and listing -/

/-- Files one entry in the map, unless it is disabled or cannot be resolved. -/
def fileEntry (messages : Localizer (StateM σ)) (locale defaultCategory : String)
    (id : EntryId) (map : LabelMap) : Act σ LabelMap := do
  let w ← get
  if !Lifecycle.isEnabled env w (w.entry id) then
    return map
  let title ← Lifecycle.title env id
  let found ← Lifecycle.category env id
  let category := (found.filter fun c => !Text.isBlankText c).getD defaultCategory
  let w ← get
  let e := w.entry id
  if e.broken then
    return map
  let title ← outside (localize messages title (Lifecycle.origin env w e) locale)
  return map.insert category e.label title

def fileEntries (messages : Localizer (StateM σ)) (locale defaultCategory : String) :
    List EntryId → LabelMap → Act σ LabelMap
  | [], map => return map
  | id :: rest, map => do
    let map ← holding (id :: rest) (fileEntry env messages locale defaultCategory id map)
    fileEntries messages locale defaultCategory rest map

/-- The navigation map of every enabled entry that can be resolved. -/
def labelMap (messages : Localizer (StateM σ)) (locale defaultCategory : String) :
    Act σ LabelMap := do
  fileEntries env messages locale defaultCategory (snapshot (← get)) {}

structure PluginInfo where
  label : String
  title : String
  category : Option String
  source : SourceKind
  provider : String
  rank : Int
  sequenceId : Nat
  enabled : Bool
  warm : Bool
  deriving Inhabited

def describeEntry (id : EntryId) : Act σ PluginInfo := do
  let title ← Lifecycle.title env id
  let category ← Lifecycle.category env id
  let w ← get
  let e := w.entry id
  return {
    label := e.label, title, category, source := e.kind, provider := e.source.provider
    rank := e.rank, sequenceId := e.sequenceId
    enabled := Lifecycle.isEnabled env w e, warm := e.isWarm }

def describe : Act σ (List PluginInfo) := do
  let ids := snapshot (← get)
  holding ids (ids.mapM (describeEntry env))

/-! ## The execution context -/

/-- Initializes every warm entry against a context. Failures are noted and stop nothing. -/
def attach (context : Context) : Act σ Unit := do
  let ids := snapshot (← get)
  let ref ← newContext context
  modify fun w => { w with context := some ref }
  holding ids (ids.forM fun id => do
    match ← Lifecycle.init env id ref with
    | .error f => note (.initFailed (← entry id).label f.message)
    | .ok () => return ())
  note (.contextAttached context.name ids.length)

def detach : Act σ Unit := do
  let ids := snapshot (← get)
  holding ids (ids.forM fun id => do
    match ← Lifecycle.destroy env id with
    | .error f => note (.teardownFailed (← entry id).label f.message)
    | .ok () => return ())
  modify fun w => { w with context := none }
  note (.contextDetached ids.length)

def setContext : Option Context → Act σ Unit
  | some context => attach env context
  | none => detach env

end PluginConsole.Registry
