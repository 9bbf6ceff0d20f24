import PluginConsole.Json.Basic
import PluginConsole.Decimal.Format
import PluginConsole.Decimal.Range

/-!
# Service references

A directory's handle on one registered service: its id, the module that published
it and its properties.
-/

namespace PluginConsole

/-! ## Property names -/

namespace Property

/-- The label under which a service is registered in the console. -/
def label := "webdeck.label"

/-- Takes precedence over the component's own title. -/
def title := "webdeck.title"

/-- Takes precedence over the component's own category. -/
def category := "webdeck.category"

/-- Who provides the service, for reports of conflicts. -/
def provider := "webdeck.provider"

def serviceId := "service.id"

/-- The higher ranking wins a label. -/
def serviceRanking := "service.ranking"

/-- The capabilities that a service is registered under. -/
def objectClass := "objectClass"

end Property

def consoleCapability := "webdeck.ConsolePlugin"

structure Reference where
  id : Nat
  origin : String
  properties : Dict Json
  deriving Inhabited

namespace Reference

/-- The property `service.id` is always the id. -/
def make (id : Nat) (origin : String) (properties : Dict Json) : Reference :=
  { id, origin, properties := Dict.insert Property.serviceId (.ofNat id) properties }

def property (r : Reference) (key : String) : Option Json :=
  r.properties.lookup key

def propertyNames (r : Reference) : List String :=
  Dict.keys r.properties

def textProperty (r : Reference) (key : String) : Option String :=
  (r.property key).bind Json.asText

def label (r : Reference) : Option String :=
  r.textProperty Property.label

/-- Anything but a whole number of 32 bits counts as zero. -/
def ranking (r : Reference) : Int :=
  match r.property Property.serviceRanking with
  | some (.int n) => if Decimal.isInt32 n then n else 0
  | _ => 0

/-- The capabilities may be one name or a list of names. -/
def hasCapability (r : Reference) (capability : String) : Bool :=
  match r.property Property.objectClass with
  | some (.text name) => name == capability
  | some (.list names) => names.any fun n => n == .text capability
  | _ => false

/-- A property as a parameter. Lists and objects are no parameters. -/
def parameter (r : Reference) (name : String) : Option String :=
  match r.property name with
  | some (.text s) => some s
  | some (.bool b) => some (if b then "true" else "false")
  | some (.int n) => some (toString n)
  | some (.float x) => some (Decimal.short x)
  | _ => none

/-- Who provides the service, from its properties alone. -/
def provider (r : Reference) : String :=
  match r.textProperty Property.provider with
  | some name => name
  | none =>
    let capability := match r.property Property.objectClass with
      | some (.text name) => some name
      | some (.list (.text name :: _)) => some name
      | _ => none
    match capability with
    | some name => s!"{name} #{r.id}"
    | none => s!"service #{r.id}"

end Reference

/-! ## What a component is initialized with -/

structure Context where
  name : String
  attributes : Dict String
  deriving Inhabited, DecidableEq

structure InitConfig where
  /-- The title of the entry. -/
  name : String
  context : Context
  /-- The registration, if the component comes from the directory. -/
  reference : Option Reference
  deriving Inhabited

namespace InitConfig

def parameter (c : InitConfig) (name : String) : Option String :=
  c.reference.bind (·.parameter name)

def parameterNames (c : InitConfig) : List String :=
  match c.reference with
  | some r => r.propertyNames
  | none => []

def parameters (c : InitConfig) : Dict String :=
  c.parameterNames.filterMap fun name => (c.parameter name).map fun value => (name, value)

end InitConfig

end PluginConsole
