import PluginConsole.Text.Blank

/-!
# Names of environment variables

A variable with the right beginning sets the key that the rest of its name says.
Only after the name of a section does an underscore stand for a dot; keys keep
theirs. Letter case does not matter.
-/

namespace PluginConsole.Config.EnvName

/-- How the names of all variables for the console begin. -/
def start := "webdeck_"

def replaceFirst (word replacement : List Char) : List Char → List Char
  | [] => []
  | c :: rest =>
    if word.isPrefixOf (c :: rest) then replacement ++ (c :: rest).drop word.length
    else c :: replaceFirst word replacement rest

/-- The dotted key that the rest of a name stands for. -/
def dottedKey (rest : List Char) : List Char :=
  replaceFirst "directory_".toList "directory.".toList
    (replaceFirst "console_".toList "console.".toList (rest.map Char.toLower))

/-- The parts of a text between its dots; `done` is the part so far in reverse. -/
def splitDots (done : List Char) : List Char → List String
  | [] => [String.ofList done.reverse]
  | c :: rest =>
    if c = '.' then String.ofList done.reverse :: splitDots [] rest
    else splitDots (c :: done) rest

/-- The key that a variable sets, if it sets one. No part of a key is empty. -/
def path? (name : String) : Option (List String) :=
  let cs := Text.trimChars name.toList
  if start.toList.isPrefixOf (cs.map Char.toLower) then
    let path := splitDots [] (Text.trimChars (dottedKey (cs.drop start.length)))
    if path.any (· == "") then none else some path
  else none

end PluginConsole.Config.EnvName
