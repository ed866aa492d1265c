import Lineage.Text.Attaching
import Lineage.Text.Unassigned

/-!
# Printable characters

Diagnostics quote text so that every character in it can be seen. A character is hidden when it
is a control, a format mark, a separator other than the blank, a private-use character, a code
point that stands for no character, or a mark that attaches to the character before it.
-/

namespace Lineage.Text

/-- The code points of controls, format marks, separators other than the blank, and private-use
characters. -/
def invisibleRanges : List (Nat × Nat) :=
  [(0x0, 0x1f), (0x7f, 0xa0), (0xad, 0xad), (0x600, 0x605), (0x61c, 0x61c), (0x6dd, 0x6dd),
   (0x70f, 0x70f), (0x890, 0x891), (0x8e2, 0x8e2), (0x1680, 0x1680), (0x180e, 0x180e),
   (0x2000, 0x200f), (0x2028, 0x202f), (0x205f, 0x2064), (0x2066, 0x206f), (0x3000, 0x3000),
   (0xe000, 0xf8ff), (0xfeff, 0xfeff), (0xfff9, 0xfffb), (0x110bd, 0x110bd), (0x110cd, 0x110cd),
   (0x13430, 0x1343f), (0x1bca0, 0x1bca3), (0x1d173, 0x1d17a), (0xe0001, 0xe0001),
   (0xe0020, 0xe007f), (0xf0000, 0xffffd), (0x100000, 0x10fffd)]

/-- The character can be seen on its own. -/
def isPrintable (c : Char) : Bool :=
  if 0x20 ≤ c.toNat && c.toNat < 0x7f then true
  else !(isWithin invisibleRanges c || isAttaching c || isUnassigned c)

end Lineage.Text
