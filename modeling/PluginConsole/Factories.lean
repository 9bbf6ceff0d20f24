import PluginConsole.Dict
import PluginConsole.Text.Quoted

/-!
# Factories by name

What a registry makes its own plugins from. A name that is registered again loses its
earlier factory.
-/

namespace PluginConsole

abbrev Factories (α : Type) := Dict α

namespace Factories

variable {α : Type}

def register (id : String) (factory : α) (f : Factories α) : Factories α :=
  Dict.insert id factory f

def contains (f : Factories α) (id : String) : Bool :=
  Dict.has id f

def ids (f : Factories α) : List String :=
  Dict.keys f

/-- As diagnostics write them: the names alone. -/
def debugText (f : Factories α) : String :=
  "PluginFactories \x7b ids: " ++ Text.quoteList f.ids ++ " \x7d"

end Factories

end PluginConsole
