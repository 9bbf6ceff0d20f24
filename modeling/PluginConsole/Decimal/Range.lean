/-!
# Ranges of whole numbers

The whole numbers of 32 and 64 bits, with a sign and without.
-/

namespace PluginConsole.Decimal

def isInt32 (n : Int) : Bool :=
  -2147483648 ≤ n && n ≤ 2147483647

def isInt64 (n : Int) : Bool :=
  -9223372036854775808 ≤ n && n ≤ 9223372036854775807

def isNat64 (n : Int) : Bool :=
  0 ≤ n && n ≤ 18446744073709551615

end PluginConsole.Decimal
