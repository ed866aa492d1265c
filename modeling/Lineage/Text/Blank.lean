/-!
# Blank space

The white space of all scripts, and the text without the white space around it.
-/

namespace Lineage.Text

def isBlank (c : Char) : Bool :=
  let n := c.toNat
  (0x09 ≤ n && n ≤ 0x0d) || n == 0x20 || n == 0x85 || n == 0xa0 || n == 0x1680 ||
    (0x2000 ≤ n && n ≤ 0x200a) || n == 0x2028 || n == 0x2029 || n == 0x202f || n == 0x205f ||
    n == 0x3000

/-- The text without leading and trailing white space. -/
def trim (s : String) : String :=
  String.ofList (((s.toList.dropWhile isBlank).reverse.dropWhile isBlank).reverse)

/-- The text with the letters A to Z in lower case and all else unchanged. -/
def lowercase (s : String) : String := String.ofList (s.toList.map Char.toLower)

end Lineage.Text
