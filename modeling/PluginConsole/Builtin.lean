import PluginConsole.Registry.World
import PluginConsole.Text.Padding

/-!
# Built-in plugins and handlers

The console brings three plugins that an application may ask for by name, and two
request handlers that its configuration may publish. Of the state of all of them only
two things are kept: whether the status plugin is active and for whom, and the
parameters that the echo handler was given.
-/

namespace PluginConsole

inductive Builtin where
  /-- Reports on the console. `origin` is the host that activated it last. -/
  | status (active : Bool) (origin : Option String)
  | configuration
  | licenses
  /-- Tells how many parameters it was initialized with. -/
  | echo (parameters : List String)
  | health
  deriving DecidableEq, Inhabited

namespace Builtin

/-! ## What is there -/

def pluginIds : List String := ["status", "configuration", "licenses"]

def handlerIds : List String := ["echo", "health"]

def fresh? : String → Option Builtin
  | "status" => some (.status false none)
  | "configuration" => some .configuration
  | "licenses" => some .licenses
  | "echo" => some (.echo [])
  | "health" => some .health
  | _ => none

def id : Builtin → String
  | .status .. => "status"
  | .configuration => "configuration"
  | .licenses => "licenses"
  | .echo _ => "echo"
  | .health => "health"

/-- The messages of the console itself give the title. -/
def title (b : Builtin) : String :=
  s!"%{b.id}.title"

def category : Builtin → Option String
  | .status .. | .configuration => some "Status"
  | .licenses => some "Info"
  | _ => none

def typeName : Builtin → String
  | .status .. => "StatusPlugin"
  | .configuration => "ConfigurationPlugin"
  | .licenses => "LicensesPlugin"
  | .echo _ => "EchoHandler"
  | .health => "HealthHandler"

def providerName (b : Builtin) : String :=
  "webdeck::builtin::" ++ b.typeName

def isActivatable : Builtin → Bool
  | .status .. => true
  | _ => false

/-! ## What they do -/

def activate (host : String) : Builtin → Builtin
  | .status .. => .status true (some host)
  | b => b

/-- The last host is remembered. -/
def deactivate : Builtin → Builtin
  | .status _ origin => .status false origin
  | b => b

def init (config : InitConfig) : Builtin → Builtin
  | .echo _ => .echo config.parameterNames
  | b => b

def destroy : Builtin → Builtin
  | .echo _ => .echo []
  | b => b

def info : Builtin → Option String
  | .echo parameters => some ("echo (" ++ toString parameters.length ++ " parameters)")
  | .health => some "healthy"
  | _ => none

/-! ## As plugin code -/

/-- Where the objects are kept that were made so far. -/
structure Store (σ : Type) where
  read : σ → List Builtin
  write : List Builtin → σ → σ

namespace Store

variable {σ : Type} (store : Store σ)

/-- Makes an object. Its number is its place among all that were made. -/
def make (b : Builtin) : Act σ Instance := Act.outside fun s =>
  let all := store.read s
  (.made b.id all.length, store.write (all ++ [b]) s)

def update (f : Builtin → Builtin) : Instance → Act σ Unit
  | .made _ n => Act.outside fun s => ((), store.write ((store.read s).modify n f) s)
  | .named _ => return ()

end Store

/-- What does not change during the life of an object. -/
def nature : Instance → Builtin
  | .made id _ => (fresh? id).getD default
  | .named _ => default

/-- The built-in objects. None of their calls fails. -/
def code {σ : Type} (store : Store σ) (host : σ → String) : PluginCode σ where
  hasFactory id := pluginIds.contains id
  label object := (nature object).id
  providerName object := (nature object).providerName
  activatable object := (nature object).isActivatable
  create id := do
    match fresh? id with
    | some b => return .ok (← store.make b)
    | none => return .error (.fault (.factoryNotFound id))
  activate object := do
    let w ← get
    return .ok (← store.update (activate (host w.outside)) object)
  deactivate object := return .ok (← store.update deactivate object)
  title object := return .ok (nature object).title
  category object := return .ok (nature object).category
  init object config := return .ok (← store.update (init config) object)
  destroy object := return .ok (← store.update destroy object)
  observe _ _ := return ()

end Builtin

end PluginConsole
