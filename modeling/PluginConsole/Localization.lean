import PluginConsole.Dict
import PluginConsole.Fault

/-!
# Localized titles

A title that begins with a percent sign is the key of a message. A localizer gives
the messages of a module in a locale; whatever it fails with, the title stays.
-/

namespace PluginConsole

/-- Messages by module and locale. -/
abbrev Localizer (m : Type → Type) := String → String → m (Outcome (Dict String))

def messageKey? (title : String) : Option String :=
  match title.toList with
  | '%' :: key => some (String.ofList key)
  | _ => none

/-- What a title becomes, given what the localizer answered. -/
def localized (title key : String) : Outcome (Dict String) → String
  | .ok table => (table.lookup key).getD title
  | .error _ => title

def localize [Monad m] (messages : Localizer m) (title origin locale : String) : m String :=
  match messageKey? title with
  | none => pure title
  | some key => do return localized title key (← messages origin locale)

theorem localize_of_messageKey?_eq_none [Monad m] (messages : Localizer m)
    {title : String} (h : messageKey? title = none) (origin locale : String) :
    localize messages title origin locale = pure title := by
  simp [localize, h]

end PluginConsole
