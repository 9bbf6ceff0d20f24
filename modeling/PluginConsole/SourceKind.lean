import PluginConsole.Json.Basic

/-!
# Kinds of source

A component comes from the service directory, or the application makes it.
-/

namespace PluginConsole

inductive SourceKind where
  | directory
  | direct
  deriving DecidableEq, Inhabited

namespace SourceKind

def name : SourceKind → String
  | .directory => "directory"
  | .direct => "direct"

def title : SourceKind → String
  | .directory => "Directory"
  | .direct => "Direct"

/-- Exactly a name, with no blanks and in lower case. -/
def ofName? (s : String) : Option SourceKind :=
  if s = "directory" then some .directory
  else if s = "direct" then some .direct
  else none

/-- A name, or an object whose only member has the name and no value. -/
def ofJson? : Json → Option SourceKind
  | .text s => ofName? s
  | .object [(s, .null)] => ofName? s
  | _ => none

theorem ofName?_eq_some_iff {s : String} {k : SourceKind} : ofName? s = some k ↔ s = k.name := by
  cases k <;> simp only [ofName?, name]
  · constructor
    · intro h
      split at h
      · assumption
      · split at h <;> simp at h
    · rintro rfl
      rfl
  · constructor
    · intro h
      split at h
      · simp at h
      · split at h
        · assumption
        · simp at h
    · rintro rfl
      rfl

end SourceKind

end PluginConsole
