import PluginConsole.Json.Reader
import PluginConsole.Toml.Document
import PluginConsole.Toml.Word

/-!
# Reading TOML

A reader for TOML 1.0. A text that is no TOML has no value; why is not told. Each
function takes the characters that are left and gives the rest back.
-/

namespace PluginConsole.Toml.Grammar

def isGap (c : Char) : Bool :=
  c == ' ' || c == '\t'

def skipGap (cs : List Char) : List Char :=
  cs.dropWhile isGap

/-- The text after the end of a line, if it stands here. -/
def newline : List Char → Option (List Char)
  | '\n' :: rest => some rest
  | '\r' :: '\n' :: rest => some rest
  | _ => none

/-- A comment up to the end of its line. -/
def skipComment : List Char → List Char
  | '#' :: rest => rest.dropWhile isPlain
  | cs => cs

/-- Nothing but a comment may stand before the end of the line. -/
def endOfLine (cs : List Char) : Option (List Char) :=
  match skipComment (skipGap cs) with
  | [] => some []
  | rest => newline rest

/-! ## Text -/

/-- The character that an escape stands for, after its backslash. -/
def escape : List Char → Option (Char × List Char)
  | 'b' :: rest => some ('\x08', rest)
  | 't' :: rest => some ('\t', rest)
  | 'n' :: rest => some ('\n', rest)
  | 'f' :: rest => some ('\x0c', rest)
  | 'r' :: rest => some ('\r', rest)
  | '"' :: rest => some ('"', rest)
  | '\\' :: rest => some ('\\', rest)
  | 'u' :: rest => codePoint 4 rest
  | 'U' :: rest => codePoint 8 rest
  | _ => none
where
  codePoint (count : Nat) (cs : List Char) : Option (Char × List Char) := do
    let (n, rest) ← Json.hexNumber count 0 cs
    if n.isValidChar then some (Char.ofNat n, rest) else none

/-- The rest of a text on one line after its opening quote; `done` is in reverse. -/
def basicText : Nat → List Char → List Char → Option (String × List Char)
  | 0, _, _ => none
  | fuel + 1, done, cs =>
    match cs with
    | '"' :: rest => some (String.ofList done.reverse, rest)
    | '\\' :: rest => do
      let (c, rest) ← escape rest
      basicText fuel (c :: done) rest
    | c :: rest => if isPlain c then basicText fuel (c :: done) rest else none
    | [] => none

def literalText (cs : List Char) : Option (String × List Char) :=
  match cs.dropWhile fun c => isPlain c && c != '\'' with
  | '\'' :: rest => some (String.ofList (cs.takeWhile fun c => isPlain c && c != '\''), rest)
  | _ => none

/-- A newline right after the opening delimiter does not count. -/
def dropFirstNewline (cs : List Char) : List Char :=
  (newline cs).getD cs

/-- Blanks and line ends, after a backslash at the end of a line. -/
def skipLines : Nat → List Char → List Char
  | 0, cs => cs
  | fuel + 1, cs =>
    match newline (skipGap cs) with
    | some rest => skipLines fuel rest
    | none => skipGap cs

/-- The rest of a text over several lines. One or two quotes stand for themselves; up
to two more may stand before the three that close it. -/
def longText (quote : Char) : Nat → List Char → List Char → Option (String × List Char)
  | 0, _, _ => none
  | fuel + 1, done, cs =>
    match cs with
    | [] => none
    | c :: rest =>
      if c = quote then
        let run := (cs.takeWhile (· == quote)).length
        if run < 3 then longText quote fuel (List.replicate run quote ++ done) (cs.drop run)
        else
          let extra := min (run - 3) 2
          some (String.ofList (List.replicate extra quote ++ done).reverse, cs.drop (extra + 3))
      else if c = '\\' && quote == '"' then
        match newline (skipGap rest) with
        | some rest => longText quote fuel done (skipLines rest.length rest)
        | none => do
          let (c, rest) ← escape rest
          longText quote fuel (c :: done) rest
      else
        match newline cs with
        | some rest => longText quote fuel ('\n' :: done) rest
        | none => if isPlain c then longText quote fuel (c :: done) rest else none

def text (cs : List Char) : Option (String × List Char) :=
  match cs with
  | '"' :: '"' :: '"' :: rest => longText '"' (rest.length + 1) [] (dropFirstNewline rest)
  | '\'' :: '\'' :: '\'' :: rest => longText '\'' (rest.length + 1) [] (dropFirstNewline rest)
  | '"' :: rest => basicText (rest.length + 1) [] rest
  | '\'' :: rest => literalText rest
  | _ => none

/-! ## Keys -/

/-- Tables nested deeper than this, or keys with more parts, are refused. -/
def depthLimit : Nat := 80

def simpleKey (cs : List Char) : Option (String × List Char) :=
  match cs with
  | '"' :: rest => basicText (rest.length + 1) [] rest
  | '\'' :: rest => literalText rest
  | _ =>
    let bare := cs.takeWhile isBare
    if bare.isEmpty then none else some (String.ofList bare, cs.dropWhile isBare)

/-- Keys with dots between them. Fuel is the number of parts. -/
def dottedKey : Nat → List Char → Option (List String × List Char)
  | 0, _ => none
  | fuel + 1, cs => do
    let (key, rest) ← simpleKey (skipGap cs)
    match skipGap rest with
    | '.' :: rest =>
      let (keys, rest) ← dottedKey fuel rest
      some (key :: keys, rest)
    | rest => some ([key], rest)

def key (cs : List Char) : Option (List String × List Char) :=
  dottedKey (depthLimit - 1) cs

/-! ## Values -/

/-- Blanks, line ends and comments between the items of a list. -/
def skipFiller : Nat → List Char → List Char
  | 0, cs => cs
  | fuel + 1, cs =>
    let rest := skipComment (skipGap cs)
    match newline rest with
    | some rest => skipFiller fuel rest
    | none => rest

def filler (cs : List Char) : List Char :=
  skipFiller cs.length cs

def isWordChar (c : Char) : Bool :=
  !(isGap c || c == '\n' || c == '\r' || c == '#' || c == ',' || c == ']' || c == '\x7d')

/-- A date may go on after one blank with its time. -/
def word (cs : List Char) : Option (Toml × List Char) :=
  let first := cs.takeWhile isWordChar
  let rest := cs.dropWhile isWordChar
  if Word.timeFollows first rest then
    let second := (rest.drop 1).takeWhile isWordChar
    (Word.value (first ++ ' ' :: second)).map (·, (rest.drop 1).dropWhile isWordChar)
  else (Word.value first).map (·, rest)

mutual

/-- `depth` counts the lists and tables around the value. -/
def value : Nat → Nat → List Char → Option (Toml × List Char)
  | 0, _, _ => none
  | fuel + 1, depth, cs =>
    match cs with
    | '"' :: _ | '\'' :: _ => (text cs).map fun (s, rest) => (.text s, rest)
    | '[' :: rest =>
      if depthLimit ≤ depth + 1 then none
      else (items fuel (depth + 1) rest).map fun (vs, rest) => (.list vs, rest)
    | '\x7b' :: rest =>
      if depthLimit ≤ depth + 1 then none
      else
        match skipGap rest with
        | '\x7d' :: rest => some (.table [], rest)
        | rest => (members fuel (depth + 1) .empty rest).map fun (t, rest) => (t.toToml, rest)
    | _ => word cs

/-- The items of a list up to its closing bracket; a comma may follow the last. -/
def items : Nat → Nat → List Char → Option (List Toml × List Char)
  | 0, _, _ => none
  | fuel + 1, depth, cs =>
    match filler cs with
    | ']' :: rest => some ([], rest)
    | cs => do
      let (v, rest) ← value fuel depth cs
      match filler rest with
      | ',' :: rest =>
        let (vs, rest) ← items fuel depth rest
        some (v :: vs, rest)
      | ']' :: rest => some ([v], rest)
      | _ => none

/-- The members of an inline table, of which there is at least one more. -/
def members : Nat → Nat → Table → List Char → Option (Table × List Char)
  | 0, _, _, _ => none
  | fuel + 1, depth, t, cs => do
    let (path, rest) ← key cs
    let (way, last) ← splitLast path
    let rest ← Word.expect '=' rest
    let (v, rest) ← value fuel depth (skipGap rest)
    let t ← t.define way last v
    match skipGap rest with
    | ',' :: rest => members fuel depth t rest
    | '\x7d' :: rest => some (t, rest)
    | _ => none

end

/-! ## Documents -/

/-- One header, after its opening brackets. -/
def header (closing : List Char) (cs : List Char) : Option (List String × List Char) := do
  let (path, rest) ← key cs
  if closing.isPrefixOf rest then some (path, ← endOfLine (rest.drop closing.length))
  else none

def definition (cs : List Char) (d : Document) : Option (Document × List Char) := do
  let (path, rest) ← key cs
  let (way, last) ← splitLast path
  let rest ← Word.expect '=' rest
  let (v, rest) ← value (rest.length + 1) 0 (skipGap rest)
  some (← d.define way last v, ← endOfLine rest)

def line (cs : List Char) (d : Document) : Option (Document × List Char) :=
  match skipGap cs with
  | '[' :: '[' :: rest => do
    let (path, rest) ← header [']', ']'] rest
    some (← d.openRepeated path, rest)
  | '[' :: rest => do
    let (path, rest) ← header [']'] rest
    some (← d.openTable path, rest)
  | c :: rest =>
    if c = '#' || c = '\n' || c = '\r' then (endOfLine (c :: rest)).map fun rest => (d, rest)
    else definition (c :: rest) d
  | [] => some (d, [])

def lines : Nat → List Char → Document → Option Document
  | _, [], d => some d
  | 0, _, _ => none
  | fuel + 1, cs, d => do
    let (d, rest) ← line cs d
    lines fuel rest d

/-- The table that a text describes. A byte order mark at its beginning is skipped. -/
def document (s : String) : Option (Dict Toml) := do
  let cs := match s.toList with
    | '\ufeff' :: rest => rest
    | cs => cs
  match (← (← lines (cs.length + 1) cs {}).finish).toToml with
  | .table members => some members
  | _ => none

end PluginConsole.Toml.Grammar

namespace PluginConsole.Toml

def read (s : String) : Option (Dict Toml) :=
  Grammar.document s

end PluginConsole.Toml
