/-!
# Text in columns

Widths count characters. Text that is too long stays whole.
-/

namespace PluginConsole.Text

def padRight (width : Nat) (s : String) : String :=
  s ++ String.ofList (List.replicate (width - s.length) ' ')

def padLeft (width : Nat) (s : String) : String :=
  String.ofList (List.replicate (width - s.length) ' ') ++ s

def cut (count : Nat) (s : String) : String :=
  String.ofList (s.toList.take count)

def join (separator : String) : List String → String
  | [] => ""
  | [s] => s
  | s :: rest => s ++ separator ++ join separator rest

end PluginConsole.Text
