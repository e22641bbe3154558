import ReplyLedger.Text.Basic

/-!
# Blank characters

The characters that count as white space when a text is trimmed. They are the characters of
Unicode's white-space class together with the four information separators U+001C to U+001F;
the zero-width space, the byte-order mark and the Mongolian vowel separator are not among them.
-/

namespace ReplyLedger.Text

/-- Whether `c` is white space. -/
def isBlank (c : Char) : Bool :=
  let n := c.toNat
  (0x09 ≤ n && n ≤ 0x0D) || (0x1C ≤ n && n ≤ 0x20) || n == 0x85 || n == 0xA0 || n == 0x1680 ||
    (0x2000 ≤ n && n ≤ 0x200A) || n == 0x2028 || n == 0x2029 || n == 0x202F || n == 0x205F ||
    n == 0x3000

/-- The text without its leading blanks. -/
def stripLeft (t : Text) : Text := t.dropWhile isBlank

/-- The text without its trailing blanks. -/
def stripRight (t : Text) : Text := (t.reverse.dropWhile isBlank).reverse

/-- The text without its leading and trailing blanks. -/
def strip (t : Text) : Text := stripRight (stripLeft t)

end ReplyLedger.Text
