import PluginConsole.Json.Basic

/-!
# Notices

What the console writes into its log, at the levels that an operator reads. Each
notice has a level, fixed words and fields.
-/

namespace PluginConsole

inductive Notice where
  | registryOpened (plugins : Nat)
  | registryClosed (plugins : Nat)
  | factoryMissing (factory : String)
  | overwritten (label replaced provider : String)
  | refused (label kept provider : String)
  | initFailed (label error : String)
  | teardownFailed (label error : String)
  | disabled (plugin : String)
  | notInstantiated (plugin error : String)
  | notDeactivated (plugin error : String)
  | contextAttached (context : String) (plugins : Nat)
  | contextDetached (plugins : Nat)
  | consoleStarted (plugins : Nat)
  | consoleStopped
  deriving DecidableEq, Inhabited

namespace Notice

def isWarning : Notice → Bool
  | .factoryMissing _ | .overwritten .. | .refused .. | .initFailed .. | .teardownFailed ..
  | .notInstantiated .. | .notDeactivated .. => true
  | _ => false

def level (n : Notice) : String :=
  if n.isWarning then "WARN" else "INFO"

def words : Notice → String
  | .registryOpened _ => "plugin registry opened"
  | .registryClosed _ => "plugin registry closed"
  | .factoryMissing _ => "no factory registered, plugin will never resolve"
  | .overwritten .. => "overwriting plugin with a preferred provider"
  | .refused .. => "ignoring plugin: label already held by a preferred provider"
  | .initFailed .. => "plugin failed to initialize"
  | .teardownFailed .. => "plugin failed to tear down"
  | .disabled _ => "ignoring plugin: disabled by configuration"
  | .notInstantiated .. => "failed to instantiate plugin"
  | .notDeactivated .. => "plugin failed to deactivate"
  | .contextAttached .. => "execution context attached"
  | .contextDetached _ => "execution context detached"
  | .consoleStarted _ => "console started"
  | .consoleStopped => "console stopped"

def fields : Notice → Dict Json
  | .registryOpened n | .registryClosed n | .contextDetached n | .consoleStarted n =>
    [("plugins", .ofNat n)]
  | .factoryMissing f => [("factory", .text f)]
  | .overwritten label replaced provider =>
    [("label", .text label), ("provider", .text provider), ("replaced", .text replaced)]
  | .refused label kept provider =>
    [("kept", .text kept), ("label", .text label), ("provider", .text provider)]
  | .initFailed label error | .teardownFailed label error =>
    [("error", .text error), ("label", .text label)]
  | .disabled plugin => [("plugin", .text plugin)]
  | .notInstantiated plugin error | .notDeactivated plugin error =>
    [("error", .text error), ("plugin", .text plugin)]
  | .contextAttached context n => [("context", .text context), ("plugins", .ofNat n)]
  | .consoleStopped => []

end Notice

end PluginConsole
