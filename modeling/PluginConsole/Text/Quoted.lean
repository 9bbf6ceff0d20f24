import PluginConsole.Text.Printable

/-!
# Quoted text

Text as a diagnostic shows it: in double quotes, with the quote, the backslash
and every character that would not show on the page escaped.
-/

namespace PluginConsole.Text

/-- `\u` and the code point in braces. -/
def codePointEscape (c : Char) : List Char :=
  ['\\', 'u', '\x7b'] ++ Nat.toDigits 16 c.toNat ++ ['\x7d']

def quotedPiece (c : Char) : List Char :=
  if c == '"' || c == '\\' then ['\\', c]
  else if c == '\n' then ['\\', 'n']
  else if c == '\r' then ['\\', 'r']
  else if c == '\t' then ['\\', 't']
  else if c == '\x00' then ['\\', '0']
  else if c.toNat < 127 && 32 ≤ c.toNat || isPrintable c then [c]
  else codePointEscape c

def quote (s : String) : String :=
  String.ofList (['"'] ++ s.toList.flatMap quotedPiece ++ ['"'])

def quoteList (items : List String) : String :=
  items.map quote |> fun parts =>
    "[" ++ (parts.intersperse ", ").foldl (· ++ ·) "" ++ "]"

end PluginConsole.Text
