import PluginConsole.Text.Blank

/-!
# Where a key stands in a file

The place of a key, in bytes, found line by line without reading the file as TOML.
A line that begins with a bracket is a header and decides which table the lines
after it belong to. Only the first part of a path is looked at.
-/

namespace PluginConsole.Config.KeyPosition

def byteSize (cs : List Char) : Nat :=
  cs.foldl (fun n c => n + c.utf8Size) 0

/-- The lines of a text, each with its line feed; `done` is the line so far in reverse. -/
def splitLines (done : List Char) : List Char → List (List Char)
  | [] => if done.isEmpty then [] else [done.reverse]
  | '\n' :: rest => ('\n' :: done).reverse :: splitLines [] rest
  | c :: rest => splitLines (c :: done) rest

def isBracket (c : Char) : Bool :=
  c == '[' || c == ']'

def headerName (trimmed : List Char) : List Char :=
  Text.trimChars (((trimmed.dropWhile isBracket).reverse.dropWhile isBracket).reverse)

/-- Whether a header opens the section or a table in it. -/
def opens (table : String) (name : List Char) : Bool :=
  name == table.toList || (table.toList ++ ['.']).isPrefixOf name

def isHeader (line : List Char) : Bool :=
  ['['].isPrefixOf (Text.trimChars line)

def isKeyLine (key : String) (rest : List Char) : Bool :=
  key.toList.isPrefixOf rest &&
    ['='].isPrefixOf (Text.trimStartChars (rest.drop key.length))

/-- `inTable` says whether the line belongs to the table that is searched. -/
def scan (path : List String) (key : String) (inTable : Bool) (offset : Nat) :
    List (List Char) → Option Nat
  | [] => none
  | line :: rest =>
    let next := offset + byteSize line
    if isHeader line then
      let inTable := match path with
        | table :: _ => opens table (headerName (Text.trimChars line))
        | [] => false
      scan path key inTable next rest
    else if inTable && isKeyLine key (Text.trimStartChars line) then
      some (offset + (byteSize line - byteSize (Text.trimStartChars line)))
    else scan path key inTable next rest

/-- The byte at which the key begins in the table that the path names. Without a path
it is looked for before the first header. -/
def find (content : String) (path : List String) (key : String) : Option Nat :=
  scan path key path.isEmpty 0 (splitLines [] content.toList)

end PluginConsole.Config.KeyPosition
