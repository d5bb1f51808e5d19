/-!
# Blanks of every script

Attribute values that hold a number or an address are read without the blanks around them, and a
blank there is any character with the Unicode property White_Space.

* `isBlank` is that property.
* `trim` drops blanks at both ends and nothing else.
-/

namespace Selectors.Text

/-- The Unicode property White_Space. -/
def isBlank (c : Char) : Bool :=
  let n := c.toNat
  (0x09 ≤ n && n ≤ 0x0D) || n == 0x20 || n == 0x85 || n == 0xA0 || n == 0x1680
    || (0x2000 ≤ n && n ≤ 0x200A) || n == 0x2028 || n == 0x2029 || n == 0x202F || n == 0x205F
    || n == 0x3000

/-- The text without the blanks at its two ends. -/
def trim (s : List Char) : List Char :=
  ((s.dropWhile isBlank).reverse.dropWhile isBlank).reverse

end Selectors.Text
