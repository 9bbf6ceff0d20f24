/-!
# Words of a command line

Words are read from the left, and the first one that cannot be right decides. A word that
begins with a dash is an option, whatever stands before it; after two dashes alone there
are only ordinary words.
-/

namespace PluginConsole.CommandLine

/-- Why the words name no command to run. -/
inductive Stop where
  | help
  | version
  | misuse
  deriving DecidableEq, Inhabited

/-- What may stand at one place of the command line. -/
structure Grammar where
  /-- Options without a value. -/
  flags : List String := []
  /-- Options with a value. -/
  options : List String
  words : Nat := 0
  /-- Names after which the words belong to another grammar. -/
  commands : List String := []
  hasVersion : Bool := false

/-- What was found of it. -/
structure Given where
  flags : List String := []
  options : List (String × String) := []
  words : List String := []
  command : Option (String × List String) := none
  deriving DecidableEq, Inhabited

/-! ## Single words -/

inductive Shape where
  | separator
  | long (name : String) (value : Option String)
  /-- A dash and the letter after it. -/
  | short (letter : Char)
  | word
  deriving DecidableEq, Inhabited

/-- A dash alone is an ordinary word. -/
def shape (word : String) : Shape :=
  match word.toList with
  | ['-', '-'] => .separator
  | '-' :: '-' :: rest =>
    let name := String.ofList (rest.takeWhile (· != '='))
    match rest.dropWhile (· != '=') with
    | _ :: value => .long name (some (String.ofList value))
    | [] => .long name none
  | '-' :: letter :: _ => .short letter
  | _ => .word

namespace Given

/-- An option stands only once, and the name of a file is not empty. -/
def addOption (name value : String) (g : Given) : Except Stop Given :=
  if (g.options.lookup name).isSome || (name == "config" && value == "") then .error .misuse
  else .ok { g with options := g.options ++ [(name, value)] }

def addFlag (name : String) (g : Given) : Except Stop Given :=
  if g.flags.contains name then .error .misuse else .ok { g with flags := name :: g.flags }

def addWords (limit : Nat) (words : List String) (g : Given) : Except Stop Given :=
  if g.words.length + words.length ≤ limit then .ok { g with words := g.words ++ words }
  else .error .misuse

end Given

namespace Grammar

def plainOption (grammar : Grammar) (name : String) (g : Given) : Except Stop Given :=
  if name == "help" then .error .help
  else if name == "version" && grammar.hasVersion then .error .version
  else if grammar.flags.contains name then g.addFlag name
  else .error .misuse

def shortStop (grammar : Grammar) (letter : Char) : Stop :=
  if letter == 'h' then .help
  else if letter == 'V' && grammar.hasVersion then .version
  else .misuse

/-! ## All words -/

/-- A value stands behind an equals sign or is the next word. -/
def scan (grammar : Grammar) (g : Given) : List String → Except Stop Given
  | [] => .ok g
  | word :: rest =>
    match shape word with
    | .separator => g.addWords grammar.words rest
    | .short letter => .error (grammar.shortStop letter)
    | .long name (some value) =>
      if grammar.options.contains name then
        match g.addOption name value with
        | .ok g => scan grammar g rest
        | .error stop => .error stop
      else .error .misuse
    | .long name none =>
      if grammar.options.contains name then
        match rest with
        | value :: rest =>
          if shape value ≠ .word then .error .misuse
          else match g.addOption name value with
            | .ok g => scan grammar g rest
            | .error stop => .error stop
        | [] => .error .misuse
      else match grammar.plainOption name g with
        | .ok g => scan grammar g rest
        | .error stop => .error stop
    | .word =>
      if grammar.commands.contains word then .ok { g with command := some (word, rest) }
      else match g.addWords grammar.words [word] with
        | .ok g => scan grammar g rest
        | .error stop => .error stop

end Grammar

end PluginConsole.CommandLine
