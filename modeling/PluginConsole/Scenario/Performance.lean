import PluginConsole.Factories
import PluginConsole.Scenario.Setting

/-!
# How the cast performs

The calls that a registry makes into the components and factories of a scenario. Every
call is counted and told before the cues are acted on, and its answer is given after
them. A cue may do a step of the scenario, which may lead to further calls.
-/

namespace PluginConsole

structure Scenario where
  roles : Dict Scenario.Role
  makers : Factories Scenario.Maker
  book : Scenario.MessageBook
  /-- Factories that are switched off to begin with. -/
  disabled : List String
  /-- The module of the application. -/
  origin : String
  setting : Scenario.Setting
  steps : List Scenario.Step
  deriving Inhabited

namespace Scenario

/-! ## Who is who -/

/-- The role of an object; one that nobody knows has none of a plugin. -/
def roleOf (s : Scenario) : Instance → Role
  | .named name => (s.roles.lookup name).getD .other
  | .made factory _ => ((s.makers.lookup factory).bind (·.fresh)).getD .other

/-- The name under which an object tells of its calls. -/
def nameOf : Instance → String
  | .named name => name
  | .made factory n => factory ++ "#" ++ toString n

/-- Whether calls of a factory are not told: a harness gives out mocks by itself. -/
def isSilent (s : Scenario) (m : Maker) : Bool :=
  s.setting.isHarness && m.cues.isEmpty &&
    match m.shared.bind fun name => s.roles.lookup name with
    | some (.mock _) => true
    | _ => false

/-! ## Cues -/

variable (s : Scenario) (perform : Step → Play (Outcome Json))

/-- Acts on the cues of one call. The first one that ends the call is the last. A panic
that nothing contained in a step goes on in the call. -/
def followCues (name call : String) (number : Nat) : List Cue → Play (Outcome Unit)
  | [] => return .ok ()
  | cue :: rest => do
    if !cue.isDue number then
      followCues name call number rest
    else
      match cue.deed with
      | .fail f => return .error (.fault f)
      | .panic payload => return .error (.panic payload)
      | .act step =>
        match ← perform step with
        | .error f => return .error f
        | .ok reply =>
          Stage.tell (.acted name call reply)
          followCues name call number rest

/-- The answer of a call that may fail. -/
def mayFail (answer : α) : Outcome Unit → Outcome α
  | .ok () => .ok answer
  | .error f => .error f

/-- The answer of a call that can only panic. -/
def cannotFail (answer : α) : Outcome Unit → Outcome α
  | .error (.panic payload) => .error (.panic payload)
  | _ => .ok answer

/-! ## Components -/

/-- Counts and tells a call, and acts on its cues. -/
def callOn (object : Instance) (call : Call) (details : List (String × Json)) :
    Play (Outcome Unit) := do
  let role := s.roleOf object
  let number ← Stage.countCall object call
  match role with
  | .mock m =>
    match Role.mockFailure m call with
    | some f => return .error f
    | none => return .ok ()
  | _ =>
    if role.isTold then
      Stage.tell (.called (nameOf object) call.name details)
    followCues perform (nameOf object) call.name number (role.cues call)

/-- What a component tells of its initialization. -/
def setupDetails (config : InitConfig) : List (String × Json) := [
  ("name", .text config.name), ("ctx", .text config.context.name),
  ("attrs", .table config.context.attributes), ("names", .texts config.parameterNames),
  ("params", .table config.parameters)]

/-! ## Factories -/

/-- A shared component must be a plugin, and so must a new one. -/
def produce (factory : String) (number : Nat) (m : Maker) : Outcome Instance :=
  let isPlugin (name : String) : Bool := (s.roles.lookup name).any (·.isPlugin)
  let shared : Option Instance := (m.shared.filter isPlugin).map .named
  let made : Option Instance := (m.fresh.filter (·.isPlugin)).map fun _ => .made factory number
  match shared.or made with
  | some object => .ok object
  | none => .error (.fault (.internal "no component"))

def callMaker (factory : String) (m : Maker) : Play (Outcome Instance) := do
  let number ← Stage.countMade factory
  if !s.isSilent m then
    Stage.tell (.called factory "create" [])
  match ← followCues perform factory "create" number m.cues with
  | .error f => return .error f
  | .ok () => return s.produce factory number m

/-! ## Plugin code -/

/-- The cast as plugin code. -/
def castCode : PluginCode (Site Stage) where
  hasFactory id := s.makers.contains id
  label object := (s.roleOf object).label
  providerName object := (s.roleOf object).providerName (nameOf object)
  activatable object := (s.roleOf object).isActivatable
  create id := do
    match s.makers.lookup id with
    | some m => s.callMaker perform id m
    | none => return .error (.fault (.factoryNotFound id))
  activate object := do
    let host := (← get).outside.host.origin
    return mayFail () (← s.callOn perform object .activate [("host", .text host)])
  deactivate object := return cannotFail () (← s.callOn perform object .deactivate [])
  title object :=
    return cannotFail (s.roleOf object).title (← s.callOn perform object .title [])
  category object :=
    return cannotFail (s.roleOf object).category (← s.callOn perform object .category [])
  init object config := do
    Stage.rememberSetup object config
    return mayFail () (← s.callOn perform object .init (setupDetails config))
  destroy object := return cannotFail () (← s.callOn perform object .destroy [])
  observe listener event := Stage.tell (.heard listener event)

/-- In a console the factories are the built-in ones, and so are the objects that were
made; the named objects belong to the cast. -/
def consoleCode : PluginCode (Site Stage) :=
  let cast := castCode s perform
  let builtin := Builtin.code Stage.builtinStore fun site => site.host.origin
  let whose (object : Instance) : PluginCode (Site Stage) :=
    match object with
    | .named _ => cast
    | .made .. => builtin
  { hasFactory := builtin.hasFactory
    create := builtin.create
    label object := (whose object).label object
    providerName object := (whose object).providerName object
    activatable object := (whose object).activatable object
    activate object := (whose object).activate object
    deactivate object := (whose object).deactivate object
    title object := (whose object).title object
    category object := (whose object).category object
    init object config := (whose object).init object config
    destroy object := (whose object).destroy object
    observe := cast.observe }

/-- Everything that a registry works with in this scenario. -/
def environment : Environment (Site Stage) where
  directory := s.setting.directory
  host := Site.hostAccess
  code := if s.setting.isConsole then consoleCode s perform else castCode s perform

end Scenario

end PluginConsole
