import ReplyLedger.Text.Basic

/-!
# Lines

The lines of a text. A line ends at a line feed, a carriage return, the two of them together, a
vertical tab, a form feed, one of the information separators U+001C to U+001E, a next-line
character or a line or paragraph separator. What follows the last line end is a line only if it is
not empty.
-/

namespace ReplyLedger.Text

/-- Whether `c` ends a line. -/
def endsLine (c : Char) : Bool :=
  let n := c.toNat
  (0x0A ≤ n && n ≤ 0x0D) || (0x1C ≤ n && n ≤ 0x1E) || n == 0x85 || n == 0x2028 || n == 0x2029

/-- The lines of a text that continues the line whose characters, in reverse, are `line`. -/
def linesFrom (line : Text) : Text → List Text
  | [] => if line.isEmpty then [] else [line.reverse]
  | '\r' :: '\n' :: t => line.reverse :: linesFrom [] t
  | c :: t => if endsLine c then line.reverse :: linesFrom [] t else linesFrom (c :: line) t

/-- The lines of a text, without their ends. -/
def lines (t : Text) : List Text := linesFrom [] t

/-- The text with every line end of the forms `\r\n` and `\r` written as `\n`. -/
def unifyLineEnds : Text → Text
  | [] => []
  | '\r' :: '\n' :: t => '\n' :: unifyLineEnds t
  | c :: t => (if c = '\r' then '\n' else c) :: unifyLineEnds t

end ReplyLedger.Text
