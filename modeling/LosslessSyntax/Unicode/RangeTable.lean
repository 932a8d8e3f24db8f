/-!
# Tables of code point ranges

A property of characters is given by the code points that have it, written as a list of closed
ranges in increasing order. `RangeTable.contains` looks a character up. The tables of this library
hold only characters beyond ASCII: inside ASCII each property has a rule of its own, stated beside
its table.
-/

namespace LosslessSyntax

/-- Closed ranges of code points, as pairs of a first and a last one. -/
abbrev RangeTable := List (Nat × Nat)

/-- Whether a character lies in one of the ranges. -/
def RangeTable.contains (table : RangeTable) (c : Char) : Bool :=
  table.any fun range => range.1 ≤ c.toNat && c.toNat ≤ range.2

/-- Whether a character is one of the 128 of ASCII. -/
def isAscii (c : Char) : Bool :=
  c.toNat < 0x80

end LosslessSyntax
