import PluginConsole.Builtin
import PluginConsole.Config.Basic
import PluginConsole.Console.Messages
import PluginConsole.Site
import PluginConsole.Text.Padding

/-!
# A running console

What a configuration describes: its services published in a directory of its own, its
plugins in the registry, and a context attached to all of them. `start` assembles a
console and `shutdown` takes it apart in the reverse order.
-/

namespace PluginConsole

structure Console where
  config : Config
  /-- The services that the console published, in the order of the configuration. -/
  services : List Reference
  deriving Inhabited

namespace Console

/-- The context of every console that is run from a configuration. -/
def contextName := "/webdeck"

def context (c : Config) : Context :=
  ⟨contextName, [("locale", c.console.locale)]⟩

def site {π : Type} (c : Config) (own : π) : Site π :=
  { directory := {}, host := .make builtinOrigin c.console.disabledPlugins, own }

def unknownHandler? (c : Config) : Option Fault :=
  (c.services.find? fun s => !Builtin.handlerIds.contains s.handler).map fun s =>
    .config (s!"unknown handler `{s.handler}` for service `{s.label}` (expected one of: " ++
      Text.join ", " Builtin.handlerIds ++ ")")

def given (key : String) (f : α → Json) (value : Option α) : List (String × Json) :=
  (value.map fun a => (key, f a)).toList

def serviceProperties (s : ServiceSpec) : Dict Json :=
  Dict.ofList ((Property.label, .text s.label) ::
    (given Property.title .text s.title ++ given Property.category .text s.category ++
      given Property.serviceRanking .int s.ranking ++ given Property.provider .text s.provider))

variable {π : Type} (env : Environment (Site π)) (store : Builtin.Store (Site π))

def publishService (s : ServiceSpec) : Act (Site π) Reference := do
  let handler ← store.make ((Builtin.fresh? s.handler).getD default)
  Site.publish env s.origin (serviceProperties s) (.handler handler)

/-- Nothing is published when a handler is unknown. -/
def start (c : Config) : Act (Site π) (Except Fault Console) := do
  match unknownHandler? c with
  | some f => return .error f
  | none =>
    match ← Registry.openRegistry env with
    | .error f => return .error f
    | .ok () =>
      let services ← c.services.mapM (publishService env store)
      c.console.plugins.forM fun p => Registry.addDirect env p.factory p.label
      Registry.setDefaultLabel c.console.defaultLabel
      Registry.attach env (context c)
      Act.note (.consoleStarted (← get).table.length)
      return .ok { config := c, services }

def localizer {m : Type → Type} [Monad m] (c : Console) : Localizer m :=
  (Catalog.ofConfigured c.config.messages).localizer

/-- The navigation of the console. What is not asked for is taken from the configuration. -/
def labelMap (c : Console) (locale defaultCategory : Option String) : Act (Site π) LabelMap :=
  Registry.labelMap env c.localizer (locale.getD c.config.console.locale)
    (defaultCategory.getD c.config.console.defaultCategory)

/-- Takes the console apart. It does not keep its registry afterwards. -/
def shutdown (c : Console) : Act (Site π) Unit := do
  Registry.detach env
  c.services.forM fun r => discard (Site.withdraw env r)
  Registry.closeRegistry env
  Act.note .consoleStopped
  Registry.letGo env

end Console

end PluginConsole
