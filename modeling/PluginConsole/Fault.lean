/-!
# Faults

What can go wrong with a plugin, a service or the configuration. `Fault.message`
is the one place that words them.
-/

namespace PluginConsole

mutual

inductive Fault where
  | config (message : String)
  | subscription (filter message : String)
  | factoryNotFound (id : String)
  | instantiation (id : String) (cause : Cause)
  | activation (id : String) (cause : Cause)
  | init (label message : String)
  | localization (origin locale message : String)
  | directory (message : String)
  | panicked (context message : String)
  | internal (message : String)

/-- Why a plugin could not be made: a fault of ours, or somebody else's words. -/
inductive Cause where
  | fault (f : Fault)
  | words (s : String)

end

deriving instance Inhabited for Fault, Cause

namespace Fault

mutual

def message : Fault → String
  | .config m => s!"configuration error: {m}"
  | .subscription f m => s!"failed to subscribe to directory with filter `{f}`: {m}"
  | .factoryNotFound id => s!"no plugin factory registered for `{id}`"
  | .instantiation id cause => s!"failed to instantiate plugin `{id}`: " ++ causeMessage cause
  | .activation id cause => s!"failed to activate plugin `{id}`: " ++ causeMessage cause
  | .init label m => s!"plugin `{label}` failed to initialize: {m}"
  | .localization origin locale m =>
    s!"no messages for origin `{origin}` in locale `{locale}`: {m}"
  | .directory m => s!"directory error: {m}"
  | .panicked context m => s!"plugin panicked during {context}: {m}"
  | .internal m => s!"internal error: {m}"

def causeMessage : Cause → String
  | .fault f => message f
  | .words s => s

end

mutual

def causes : Fault → List String
  | .instantiation _ cause => causeChain cause
  | .activation _ cause => causeChain cause
  | _ => []

def causeChain : Cause → List String
  | .fault f => message f :: causes f
  | .words s => [s]

end

def kind : Fault → String
  | .config _ => "Config"
  | .subscription .. => "Subscription"
  | .factoryNotFound _ => "FactoryNotFound"
  | .instantiation .. => "Instantiation"
  | .activation .. => "Activation"
  | .init .. => "Init"
  | .localization .. => "Localization"
  | .directory _ => "Directory"
  | .panicked .. => "Panicked"
  | .internal _ => "Internal"

end Fault

/-! ## Failures of plugin code -/

/-- How a call into plugin code ends when it gives no value. -/
inductive Failure where
  | fault (f : Fault)
  /-- A panic; its payload may be no text. -/
  | panic (payload : Option String)
  deriving Inhabited

def panicText (payload : Option String) : String :=
  payload.getD "unknown panic payload"

/-- A panic is contained where plugin code was called, and names what was being done. -/
def Failure.contained (context : String) : Failure → Fault
  | .fault f => f
  | .panic payload => .panicked context (panicText payload)

abbrev Outcome (α : Type) := Except Failure α

end PluginConsole
