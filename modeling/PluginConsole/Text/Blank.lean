/-!
# Blank characters

The Unicode property White_Space, and text without the blanks at its ends.
-/

namespace PluginConsole.Text

def isBlank (c : Char) : Bool :=
  let n := c.toNat
  (9 ≤ n && n ≤ 13) || n == 0x20 || n == 0x85 || n == 0xA0 || n == 0x1680 ||
    (0x2000 ≤ n && n ≤ 0x200A) || n == 0x2028 || n == 0x2029 || n == 0x202F ||
    n == 0x205F || n == 0x3000

def trimStartChars (cs : List Char) : List Char :=
  cs.dropWhile isBlank

def trimEndChars (cs : List Char) : List Char :=
  (cs.reverse.dropWhile isBlank).reverse

def trimChars (cs : List Char) : List Char :=
  trimEndChars (trimStartChars cs)

def trim (s : String) : String :=
  String.ofList (trimChars s.toList)

def isBlankText (s : String) : Bool :=
  s.toList.all isBlank

/-- The ASCII part of the upper case letters becomes lower case; all else stays. -/
def lowerAscii (s : String) : String :=
  s.map Char.toLower

def upperAscii (s : String) : String :=
  s.map Char.toUpper

end PluginConsole.Text
