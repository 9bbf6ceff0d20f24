import PluginConsole.Registry.World

/-!
# The life of an entry

Finding the component of an entry, initializing it against the attached context,
its title and category, and giving it back. A component is initialized under the
title of its entry, and the title may have to come from the component; while the
title is being found, the label stands in for it.
-/

namespace PluginConsole.Lifecycle

open Act

variable {σ : Type} (env : Environment σ)

/-! ## Calls into a component -/

def callTitle : Component → Act σ (Outcome String)
  | .plugin object => env.code.title object
  | .adapted _ _ label reference =>
    return .ok ((reference.textProperty Property.title).getD label)

def callCategory : Component → Act σ (Outcome (Option String))
  | .plugin object => env.code.category object
  | .adapted _ _ _ reference => return .ok (reference.textProperty Property.category)

def callInit (c : Component) (config : InitConfig) : Act σ (Outcome Unit) :=
  match c with
  | .plugin object => env.code.init object config
  | .adapted _ handler _ _ => env.code.init handler config

def callDestroy : Component → Act σ (Outcome Unit)
  | .plugin object => env.code.destroy object
  | .adapted _ handler _ _ => env.code.destroy handler

def labelOf : Component → String
  | .plugin object => env.code.label object
  | .adapted _ _ label _ => label

def providerOf : Component → String
  | .plugin object => env.code.providerName object
  | .adapted _ handler _ _ => env.code.providerName handler

/-! ## Taking a component and giving it back -/

/-- Takes a hold. An object that the console cannot use is given back at once. -/
def acquireService (id : EntryId) (label : String) (reference : Reference) :
    Act σ (Option Component) := do
  match ← outside (env.directory.getService reference) with
  | none => return none
  | some (.plugin object) => return some (.plugin object)
  | some (.handler object) => return some (.adapted (← freshSerial) object label reference)
  | some .other =>
    record id (.giveBack reference)
    outside (env.directory.releaseService reference)
    return none

/-- A component that wants activation is activated before anyone sees it. -/
def instantiate (id : EntryId) (factory : String) (known : Bool) :
    Act σ (Except Fault Component) := do
  if !known then
    return .error (.factoryNotFound factory)
  record id (.create factory)
  match ← env.code.create factory with
  | .error f => return .error (.instantiation factory (.fault (f.contained "construction")))
  | .ok object =>
    if !env.code.activatable object then
      return .ok (.plugin object)
    record id (.activate object)
    match ← env.code.activate object with
    | .error f => return .error (.activation factory (.fault (f.contained "activation")))
    | .ok () =>
      record id (.activated object)
      return .ok (.plugin object)

/-- Written once, until a success arms the report again. -/
def report (id : EntryId) (n : Notice) : Act σ Unit := do
  if (← entry id).armed then
    modifyEntry id fun e => { e with armed := false }
    note n

def acquireDirect (id : EntryId) (factory : String) (known : Bool) :
    Act σ (Option Component) := do
  if env.host.isDisabled (← get).outside factory then
    report id (.disabled factory)
    return none
  match ← instantiate env id factory known with
  | .ok c =>
    modifyEntry id fun e => { e with armed := true }
    return some c
  | .error f =>
    report id (.notInstantiated factory f.message)
    return none

def acquire (id : EntryId) : Act σ (Option Component) := do
  let e ← entry id
  match e.source with
  | .directory reference => acquireService env id e.label reference
  | .direct factory known => acquireDirect env id factory known

def release (id : EntryId) (c : Component) : Act σ Unit := do
  record id (.released c)
  match (← entry id).source with
  | .directory reference =>
    record id (.giveBack reference)
    outside (env.directory.releaseService reference)
  | .direct factory _ =>
    match c with
    | .plugin object =>
      if env.code.activatable object then
        record id (.deactivate object)
        match ← env.code.deactivate object with
        | .error f => note (.notDeactivated factory (f.contained "deactivation").message)
        | .ok () => return ()
    | .adapted .. => return ()

/-- The warm component, or a new one. Whatever happened to the entry while the new
one was being taken wins over it. -/
def resolve (id : EntryId) : Act σ (Option Component) := do
  let e ← entry id
  if e.disposed then
    return none
  match e.warm with
  | some warm => return some warm.component
  | none =>
    match ← acquire env id with
    | none =>
      modifyEntry id fun e => { e with broken := true }
      return none
    | some fresh =>
      record id (.acquired fresh)
      let e ← entry id
      if e.disposed then
        release env id fresh
        return none
      match e.warm with
      | some warm =>
        release env id fresh
        return some warm.component
      | none =>
        modifyEntry id fun e => { e with broken := false, warm := some ⟨fresh, none⟩ }
        return some fresh

/-! ## Initialization -/

/-- Records the context as the binding of the component; `false` if it already is. -/
def claimBinding (id : EntryId) (c : Component) (ref : ContextRef) : Act σ Bool := do
  match (← entry id).warm with
  | none => return false
  | some warm =>
    if !warm.component.same c then
      return false
    if warm.bound.any (·.serial == ref.serial) then
      return false
    modifyEntry id fun e => { e with warm := some { warm with bound := some ref } }
    return true

/-- Any other fault of an initialization is told as one. -/
def initFault (label : String) : Fault → Fault
  | .init l m => .init l m
  | .panicked c m => .panicked c m
  | f => .init label f.message

/-- `titleOf` finds the title that the component is initialized under. -/
def initComponent (titleOf : Act σ String) (id : EntryId) (c : Component) (ref : ContextRef) :
    Act σ (Except Fault Unit) := do
  let name ← titleOf
  let e ← entry id
  let config := { name, context := ref.context, reference := e.source.reference }
  record id (.init c ref config)
  match ← callInit env c config with
  | .ok () => return .ok ()
  | .error f => return .error (initFault e.label (f.contained "init"))

/-- The component, initialized if a context is attached that it is not yet bound to.
A failed initialization is noted, and the component is given out all the same. -/
def componentNamed (titleOf : Act σ String) (id : EntryId) : Act σ (Option Component) := do
  match ← resolve env id with
  | none => return none
  | some c =>
    match (← get).context with
    | none => return some c
    | some ref =>
      if ← claimBinding id c ref then
        match ← initComponent env titleOf id c ref with
        | .error f => note (.initFailed (← entry id).label f.message)
        | .ok () => pure ()
      return some c

/-! ## Title and category -/

inductive Claim where
  | hit (s : String)
  | inFlight
  | claimed

/-- Who claims an empty cache has to fill it. -/
def claimTitle (id : EntryId) : Act σ Claim := do
  match (← entry id).title with
  | .resolved s => return .hit s
  | .inFlight => return .inFlight
  | .empty =>
    modifyEntry id fun e => { e with title := .inFlight }
    return .claimed

def claimCategory (id : EntryId) : Act σ Claim := do
  match (← entry id).category with
  | .resolved s => return .hit s
  | .inFlight => return .inFlight
  | .empty =>
    modifyEntry id fun e => { e with category := .inFlight }
    return .claimed

/-- The property first, then the component. An initialization on the way happens
under the label, because the title is in flight. -/
def resolveTitle (id : EntryId) : Act σ (Option String) := do
  let e ← entry id
  match e.source.property Property.title with
  | some t => return some t
  | none =>
    match ← componentNamed env (pure e.label) id with
    | none => return none
    | some c =>
      record id (.title c)
      match ← callTitle env c with
      | .ok t => return some t
      | .error _ => return none

/-- Found once. An entry without a title of its own is shown under its label. -/
def title (id : EntryId) : Act σ String := do
  let label := (← entry id).label
  match ← claimTitle id with
  | .hit t => return t
  | .inFlight => return label
  | .claimed =>
    let found ← resolveTitle env id
    let t := (found.filter (· ≠ "")).getD label
    modifyEntry id fun e => { e with title := .resolved t }
    return t

def component (id : EntryId) : Act σ (Option Component) :=
  componentNamed env (title env id) id

def resolveCategory (id : EntryId) : Act σ (Option String) := do
  let e ← entry id
  match e.source.property Property.category with
  | some c => return some c
  | none =>
    match ← component env id with
    | none => return none
    | some c =>
      record id (.category c)
      match ← callCategory env c with
      | .ok found => return found
      | .error _ => return none

/-- Kept once found, looked for again while there is none. -/
def category (id : EntryId) : Act σ (Option String) := do
  match ← claimCategory id with
  | .hit c => return some c
  | .inFlight => return none
  | .claimed =>
    let found := (← resolveCategory env id).filter (· ≠ "")
    modifyEntry id fun e =>
      { e with category := match found with | some c => .resolved c | none => .empty }
    return found

/-! ## Attaching, detaching, disposing -/

/-- Binds a warm component. A cold entry is bound when its component is found. -/
def init (id : EntryId) (ref : ContextRef) : Act σ (Except Fault Unit) := do
  match (← entry id).warm with
  | none => return .ok ()
  | some warm =>
    if ← claimBinding id warm.component ref then
      initComponent env (title env id) id warm.component ref
    else
      return .ok ()

def destroy (id : EntryId) : Act σ (Except Fault Unit) := do
  match (← entry id).warm with
  | none => return .ok ()
  | some warm =>
    match warm.bound with
    | none => return .ok ()
    | some _ =>
      modifyEntry id fun e => { e with warm := some { warm with bound := none } }
      record id (.destroy warm.component)
      match ← callDestroy env warm.component with
      | .ok () => return .ok ()
      | .error f => return .error (f.contained "destroy")

/-- Gives the component back for good. Nothing happens the second time. -/
def dispose (id : EntryId) : Act σ Unit := do
  let e ← entry id
  modifyEntry id fun e => { e with disposed := true, warm := none }
  match e.warm with
  | none => return ()
  | some warm =>
    if warm.bound.isSome then
      record id (.destroy warm.component)
      match ← callDestroy env warm.component with
      | .error f => note (.teardownFailed e.label (f.contained "destroy").message)
      | .ok () => pure ()
    release env id warm.component

/-! ## Facts that need no component -/

def isEnabled (w : World σ) (e : Entry) : Bool :=
  match e.source with
  | .directory _ => true
  | .direct factory _ => !env.host.isDisabled w.outside factory

/-- The module whose messages localize the title. -/
def origin (w : World σ) (e : Entry) : String :=
  match e.source with
  | .directory reference => reference.origin
  | .direct .. => env.host.origin w.outside

end PluginConsole.Lifecycle
