import ReplyLedger.Text.Printable

/-!
# Quoted texts

How a text is shown inside a message: between quotation marks, with what cannot be shown escaped.
The marks are single unless the text holds a single mark and no double one. A backslash and the mark
in use are escaped by a backslash; line feed, carriage return and tab are `\n`, `\r` and `\t`; every
other unprintable character is written by its code point in two, four or eight hexadecimal digits.
-/

namespace ReplyLedger.Text

/-- The mark that encloses `t`. -/
def quoteMark (t : Text) : Char :=
  if t.contains '\x27' && !t.contains '"' then '"' else '\x27'

/-- One character between the marks `mark`. -/
def quoteChar (mark c : Char) : Text :=
  if c = mark || c = '\\' then ['\\', c]
  else if c = '\n' then ['\\', 'n']
  else if c = '\r' then ['\\', 'r']
  else if c = '\t' then ['\\', 't']
  else if isPrintable c then [c]
  else if c.toNat < 0x100 then '\\' :: 'x' :: ofHexPadded 2 c.toNat
  else if c.toNat < 0x10000 then '\\' :: 'u' :: ofHexPadded 4 c.toNat
  else '\\' :: 'U' :: ofHexPadded 8 c.toNat

/-- The text between quotation marks. -/
def quote (t : Text) : Text :=
  let mark := quoteMark t
  mark :: t.flatMap (quoteChar mark) ++ [mark]

end ReplyLedger.Text
