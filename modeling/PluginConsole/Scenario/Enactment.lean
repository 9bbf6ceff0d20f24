import PluginConsole.Scenario.Reply

/-!
# What the steps of a scenario do

Each step acts on the registry, the directory or the console and gives a reply. Cues of
the cast do steps of their own; the depth to which they may do so inside each other is
bounded.
-/

namespace PluginConsole.Scenario

open Reply

variable (s : Scenario) (env : Environment (Site Stage))

/-! ## Names -/

def referenceOf : RefName → Play (Option Reference)
  | .kept name => return (← Stage.read).references.lookup name
  | .given r => return some r

/-- Without a name nothing is kept. -/
def keepReference (name : Option String) (r : Reference) : Play Unit :=
  name.forM fun name =>
    Stage.change fun st => { st with references := Dict.insert name r st.references }

def keepEntry (name : String) (id : EntryId) : Play Unit :=
  Stage.change fun st => { st with entries := Dict.insert name id st.entries }

/-- The table of the registry; empty once the scenario let go of it. -/
def table : Play (Dict EntryId) := do
  let w ← get
  return if w.outside.own.dropped then [] else w.table

def entryOf : EntryName → Play (Option EntryId)
  | .kept name => return (← Stage.read).entries.lookup name
  | .label label => return (← table).lookup label

def withReference (name : RefName) (f : Reference → Play Json) : Play Json := do
  match ← referenceOf name with
  | some r => f r
  | none => return absent

/-- The entry is in hand during the step. -/
def withEntry {α : Type} (otherwise : α) (name : EntryName) (f : EntryId → Play α) : Play α := do
  match ← entryOf name with
  | some id => Act.holding [id] (f id)
  | none => return otherwise

/-- Steps on a directory in memory need one. -/
def onLocal (step : Play Json) : Play Json :=
  if s.setting.isLocal then step else return absent

/-- Other steps on a directory only need one that they reach. -/
def onDirectory (step : Play Json) : Play Json :=
  if s.setting.isOpenDirectory then step else return absent

/-- Steps on the registry need it to be there still, and they keep it. -/
def onRegistry {α : Type} (otherwise : α) (step : Play α) : Play α := do
  if (← Stage.read).dropped then return otherwise else Registry.keeping env step

/-! ## Steps on the directory -/

def publishAs (origin : String) (properties : Dict Json) (component : String) (role : Role)
    (keep : Option String) : Play Json := do
  let r ← Site.publish env origin properties (role.serviceObject component)
  keepReference keep r
  return .ofNat r.id

def defaultOrigin : String :=
  if s.setting.isHarness then harnessOrigin else ""

def publishPlugin (label : String) (ranking : Int) (component : String)
    (keep : Option String) : Play Json :=
  match s.setting, s.roles.lookup component with
  | .harness _, some (.mock m) =>
    publishAs env harnessOrigin
      (Dict.ofList [(Property.label, .text label), (Property.serviceRanking, .int ranking)])
      component (.mock m) keep
  | _, _ => return absent

def modifyService (id : Nat) (properties : Dict Json) (keep : Option String) : Play Json := do
  match ← Site.modifyService env id properties with
  | none => return .null
  | some r =>
    keepReference keep r
    return reference r

def subscribe (filter listener : String) : Play Json := do
  let granted ← Act.outside (
    if s.setting.isLocal then Site.onDirectory fun d =>
      match d.subscribe filter (.observer listener) with
      | .ok (id, d) => (.ok id, d)
      | .error f => (.error f, d)
    else env.directory.subscribe filter)
  match granted with
  | .ok id => return .ofNat id
  | .error f => return fault f

def enactDirectory : DirectoryStep → Play Json
  | .publish origin properties component keep =>
    s.onLocal do
      match s.roles.lookup component with
      | some role =>
        publishAs env (origin.getD s.defaultOrigin) properties component role keep
      | none => return absent
  | .publishPlugin label ranking component keep => s.publishPlugin env label ranking component keep
  | .modify id properties keep => s.onLocal (modifyService env id properties keep)
  | .withdraw name =>
    s.onLocal (withReference name fun r => return .bool (← Site.withdraw env r))
  | .subscribe filter listener => s.onDirectory (s.subscribe env filter listener)
  | .unsubscribe id => s.onDirectory do
    Act.outside (env.directory.unsubscribe id)
    return done
  | .references filter => s.onDirectory do
    match ← Act.outside (env.directory.references filter) with
    | .ok rs => return .list (rs.map fun r => .ofNat r.id)
    | .error f => return fault f
  | .filter capability => return .text (Registry.capabilityFilter capability)
  | .getService name => s.onDirectory (withReference name fun r => do
    return .ofOption (serviceObject env.code) (← Act.outside (env.directory.getService r)))
  | .releaseService name => s.onDirectory (withReference name fun r => do
    Act.outside (env.directory.releaseService r)
    return done)
  | .holds name =>
    s.onLocal (withReference name fun r => return .ofNat ((← Site.current).holds r.id))
  | .reference id => s.onLocal do
    return .ofOption reference ((← Site.current).reference? id)
  | .summary => s.onLocal do
    let d ← Site.current
    return .record [("len", .ofNat d.services.length), ("empty", .bool d.services.isEmpty),
      ("subs", .ofNat d.subscriptions.length)]

/-! ## Steps on the registry -/

def enactRegistry : RegistryStep → Play (Outcome Json)
  | .openUp => return .ok (attempt (← Registry.openRegistry env))
  | .close => do
    Registry.closeRegistry env
    return .ok done
  | .addService name => return .ok (← withReference name fun r => do
      Registry.addService env r
      return done)
  | .removeService name => return .ok (← withReference name fun r => do
      Registry.removeService env r
      return done)
  | .addDirect factory label => do
    Registry.addDirect env factory label
    return .ok done
  | .removeDirect label => return .ok (.bool (← Registry.removeDirect env label))
  | .unregister label => return .ok (.bool (← Registry.unregister env label))
  | .lookup label full => do component env full (← Registry.lookup env label)
  | .lookupDefault full => do component env full (← Registry.lookupDefault env)
  | .setDefault label => do
    Registry.setDefaultLabel label
    return .ok done
  | .setContext c => do
    Registry.setContext env c
    return .ok done
  | .context => return .ok (.ofOption (fun r => context r.context) (← get).context)
  | .labelMap view => do
    let map ← Registry.labelMap env (Stage.messages s.book) (view.locale.getD "")
      (view.defaultCategory.getD "")
    return .ok (labelMap view map)
  | .describe => return .ok (.list ((← Registry.describe env).map (·.toJson)))
  | .labels => return .ok (labels (← get))
  | .debug => return .ok (registryDebug (← get))

/-- The second time there is nothing left to let go of. -/
def letGo : Play Unit := do
  if !(← Stage.read).dropped then
    Stage.change fun st => { st with dropped := true }
    Registry.letGo env

/-! ## Steps on entries -/

/-- Whether an entry has a name or a label, or a step under way works on it. -/
def isKnownEntry (st : Stage) (w : World (Site Stage)) (id : EntryId) : Bool :=
  st.entries.any (fun (_, kept) => kept == id) || w.table.any (fun (_, held) => held == id) ||
    w.inHand.contains id

/-- An entry that somebody else has too cannot be moved. -/
def registerKept (name : String) : Play Json := do
  match (← Stage.read).entries.lookup name with
  | none => return absent
  | some id =>
    Stage.change fun st => { st with entries := Dict.erase name st.entries }
    if isKnownEntry (← Stage.read) (← get) id then
      return .text "shared"
    else
      Registry.register env id
      return done

/-- A kept context, or the one that is attached now. -/
def contextOf : Option String → Play (Option ContextRef)
  | some name => return (← Stage.read).contexts.lookup name
  | none => do onRegistry env none (return (← get).context)

def initEntry (name : EntryName) (c : Option String) : Play Json :=
  withEntry absent name fun id => do
    match ← contextOf env c with
    | some ref => return attempt (← Lifecycle.init env id ref)
    | none => return absent

def compareKept (a b : String) : Play Json := do
  let w ← get
  match w.outside.own.entries.lookup a, w.outside.own.entries.lookup b with
  | some x, some y => return ordering ((w.entry x).compareRank (w.entry y))
  | _, _ => return absent

def enactEntry : EntryStep → Play (Outcome Json)
  | .makeService name keep => return .ok (← onRegistry env absent (withReference name fun r => do
      match ← Registry.serviceEntry r with
      | some id =>
        keepEntry keep id
        return .bool true
      | none => return .bool false))
  | .makeDirect factory label keep => return .ok (← onRegistry env absent do
      keepEntry keep (← Registry.directEntry env factory label)
      return done)
  | .hold label keep => return .ok (← withEntry absent (.label label) fun id => do
      keepEntry keep id
      return done)
  | .register name => return .ok (← onRegistry env absent (registerKept env name))
  | .compare a b => return .ok (← compareKept a b)
  | .details name parameters => return .ok (← withEntry absent name fun id => do
      let w ← get
      return details env w (w.entry id) parameters)
  | .brief name => return .ok (← withEntry absent name fun id => do
      let w ← get
      return brief env w (w.entry id))
  | .title name => return .ok (← withEntry absent name fun id =>
      return .text (← Lifecycle.title env id))
  | .category name => return .ok (← withEntry absent name fun id =>
      return .ofOption .text (← Lifecycle.category env id))
  | .component name full => withEntry (.ok absent) name fun id => do
      component env full (← Lifecycle.component env id)
  | .dispose name => return .ok (← withEntry absent name fun id => do
      Lifecycle.dispose env id
      return done)
  | .makeContext keep c => do
    let ref ← Act.newContext c
    Stage.change fun st => { st with contexts := Dict.insert keep ref st.contexts }
    return .ok done
  | .init name c => return .ok (← initEntry env name c)
  | .destroy name => return .ok (← withEntry absent name fun id =>
      return attempt (← Lifecycle.destroy env id))

/-! ## Steps on the console -/

def enactConsole (c : Console) : ConsoleStep → Play (Outcome Json)
  | .labels locale defaultCategory =>
    return .ok (printed (some (← c.labelsText env locale defaultCategory)))
  | .plugins json colours => return .ok (printed (some (← c.pluginsText env json colours)))
  | .lookup label => return (← c.lookup env label).map fun found => printed (found.map (·.text))
  | .config => return .ok (printed (some c.config.document))
  | .labelMap view =>
    return .ok (labelMap view (← c.labelMap env view.locale view.defaultCategory))
  | .shutdown => do
    Stage.change fun st => { st with console := none }
    c.shutdown env
    return .ok done

/-! ## All steps -/

def enact : Step → Play (Outcome Json)
  | .directory step => return .ok (← s.enactDirectory env step)
  | .registry step => onRegistry env (.ok absent) (s.enactRegistry env step)
  | .entry step => enactEntry env step
  | .console step => do
    match (← Stage.read).console with
    | some c => enactConsole env c step
    | none => return .ok absent
  | .letGo => do
    letGo env
    return .ok done
  | .setDisabled ids => do
    Site.setDisabled ids
    return .ok done
  | .disabled => return .ok (.texts (← get).outside.host.disabled)
  | .localizerCalls => return .ok (.ofNat (← Stage.read).messagesAsked)
  | .counters name =>
    match s.roles.lookup name with
    | some role => return .ok (tally ((← Stage.read).tally (.named name)) role)
    | none => return .ok absent
  | .unknown => return .ok absent

/-- Steps inside calls inside steps, down to a depth. -/
def perform : Nat → Step → Play (Outcome Json)
  | 0, _ => return .ok absent
  | depth + 1, step => s.enact (s.environment (perform depth)) step

/-- More than any scenario needs whose calls come to an end. -/
def depthLimit := 1000

def outerEnvironment : Environment (Site Stage) :=
  s.environment (s.perform depthLimit)

end PluginConsole.Scenario
