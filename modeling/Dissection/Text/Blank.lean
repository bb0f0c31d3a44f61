import Dissection.Text

/-!
# Blanks around a numeral

A numeral may stand between blanks: the blank, the tabulators and line ends of
ASCII, and every character beyond ASCII that Unicode counts as white space.
The separators U+001C to U+001F are no blanks here.

## Main definitions

* `Blank.isBlank c` — whether `c` may surround a numeral.
* `Text.trimmed` — a text without the blanks at its two ends.
-/

namespace Dissection.Text

/-- Whether a character may stand before or after a numeral. -/
def Blank.isBlank (c : Char) : Bool :=
  let code := c.toNat
  (0x09 ≤ code && code ≤ 0x0D) || code == 0x20 || code == 0x85 || code == 0xA0 ||
    code == 0x1680 || (0x2000 ≤ code && code ≤ 0x200A) || code == 0x2028 || code == 0x2029 ||
    code == 0x202F || code == 0x205F || code == 0x3000

/-- A text without the blanks at its two ends. -/
def trimmed (text : Text) : Text :=
  ((text.dropWhile Blank.isBlank).reverse.dropWhile Blank.isBlank).reverse

end Dissection.Text
