import PluginConsole.Config.Basic
import PluginConsole.Text.Blank
import PluginConsole.Text.Padding

/-!
# Rules for configurations

What the shape of a configuration cannot say: names that must not be blank, labels
that must differ, levels that must exist. All violations are told, in this order.
-/

namespace PluginConsole.Config

inductive Violation where
  | unknownLogLevel (level : String)
  | blankDefaultCategory
  | blankLocale
  | blankDefaultLabel
  | blankPluginFactory (index : Nat)
  | blankPluginLabel (index : Nat)
  | duplicateLabel (label : String)
  | blankServiceLabel (index : Nat)
  | blankServiceHandler (index : Nat)
  deriving DecidableEq, Inhabited

def logLevels : List String := ["trace", "debug", "info", "warn", "error"]

def Violation.message : Violation → String
  | .unknownLogLevel level =>
    s!"console.log_level `{level}` is not one of " ++ Text.join ", " logLevels
  | .blankDefaultCategory => "console.default_category must not be empty"
  | .blankLocale => "console.locale must not be empty"
  | .blankDefaultLabel => "console.default_label must not be empty when set"
  | .blankPluginFactory i => s!"console.plugins[{i}].factory must not be empty"
  | .blankPluginLabel i => s!"console.plugins[{i}].label must not be empty"
  | .duplicateLabel label => s!"duplicate label `{label}` in [[console.plugins]]"
  | .blankServiceLabel i => s!"directory.services[{i}].label must not be empty"
  | .blankServiceHandler i => s!"directory.services[{i}].handler must not be empty"

def violates (condition : Bool) (v : Violation) : List Violation :=
  if condition then [v] else []

def consoleViolations (c : ConsoleSection) : List Violation :=
  violates (!logLevels.contains (Text.lowerAscii c.logLevel)) (.unknownLogLevel c.logLevel) ++
  violates (Text.isBlankText c.defaultCategory) .blankDefaultCategory ++
  violates (Text.isBlankText c.locale) .blankLocale ++
  violates (c.defaultLabel.any Text.isBlankText) .blankDefaultLabel

/-- `seen` are the labels of the plugins before the one at `index`. Blank ones are not
compared. -/
def pluginViolations (seen : List String) (index : Nat) : List PluginSpec → List Violation
  | [] => []
  | p :: rest =>
    violates (Text.isBlankText p.factory) (.blankPluginFactory index) ++
      if Text.isBlankText p.label then
        .blankPluginLabel index :: pluginViolations seen (index + 1) rest
      else if seen.contains p.label then
        .duplicateLabel p.label :: pluginViolations seen (index + 1) rest
      else pluginViolations (p.label :: seen) (index + 1) rest

def serviceViolations (index : Nat) : List ServiceSpec → List Violation
  | [] => []
  | s :: rest =>
    violates (Text.isBlankText s.label) (.blankServiceLabel index) ++
      violates (Text.isBlankText s.handler) (.blankServiceHandler index) ++
      serviceViolations (index + 1) rest

/-- Services may share a label: their ranking decides. -/
def violations (c : Config) : List Violation :=
  consoleViolations c.console ++ pluginViolations [] 0 c.console.plugins ++
    serviceViolations 0 c.services

end PluginConsole.Config
