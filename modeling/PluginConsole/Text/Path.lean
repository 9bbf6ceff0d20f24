import PluginConsole.Text.Padding

/-!
# Paths of files

How a file is named to someone who works in a directory. Paths are absolute, and their
first part is the root.
-/

namespace PluginConsole.Text.Path

def parts (path : String) : List String :=
  "/" :: (path.splitOn "/").filter (· ≠ "")

/-- The way from a directory to a file: up to where the two part, then down. -/
def way : List String → List String → List String
  | d :: ds, p :: ps =>
    if d = p then way ds ps else (d :: ds).map (fun _ => "..") ++ p :: ps
  | ds, ps => ds.map (fun _ => "..") ++ ps

/-- A file is named by the way to it, if that has fewer parts than the whole path. -/
def seenFrom (directory path : String) : String :=
  let steps := way (parts directory) (parts path)
  if steps.length < (parts path).length then join "/" steps else path

end PluginConsole.Text.Path
