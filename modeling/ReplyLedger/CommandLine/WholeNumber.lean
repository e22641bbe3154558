import ReplyLedger.Text.Blank

/-!
# Whole numbers on the command line

A whole number is written with decimal digits of any script, with single underscores between them if
that helps to read them, after an optional sign. Blanks around it do not count; the information
separators are no blanks here.
-/

namespace ReplyLedger.CommandLine

/-- The zeros of the scripts that have decimal digits; the other nine follow each of them. -/
def scriptZeros : List Nat := [
  0x30, 0x660, 0x6F0, 0x7C0, 0x966, 0x9E6, 0xA66, 0xAE6, 0xB66, 0xBE6, 0xC66, 0xCE6, 0xD66,
  0xDE6, 0xE50, 0xED0, 0xF20, 0x1040, 0x1090, 0x17E0, 0x1810, 0x1946, 0x19D0, 0x1A80, 0x1A90,
  0x1B50, 0x1BB0, 0x1C40, 0x1C50, 0xA620, 0xA8D0, 0xA900, 0xA9D0, 0xA9F0, 0xAA50, 0xABF0, 0xFF10,
  0x104A0, 0x10D30, 0x11066, 0x110F0, 0x11136, 0x111D0, 0x112F0, 0x11450, 0x114D0, 0x11650,
  0x116C0, 0x11730, 0x118E0, 0x11950, 0x11C50, 0x11D50, 0x11DA0, 0x16A60, 0x16AC0, 0x16B50,
  0x1D7CE, 0x1D7D8, 0x1D7E2, 0x1D7EC, 0x1D7F6, 0x1E140, 0x1E2F0, 0x1E950, 0x1FBF0]

/-- The value of a decimal digit of any script. -/
def decimalDigit? (c : Char) : Option Nat :=
  (scriptZeros.find? fun z => z ≤ c.toNat && c.toNat ≤ z + 9).map fun z => c.toNat - z

/-- The values of digits with single underscores between them; `expected` says that the next
character has to be a digit. -/
def digitValues? (expected : Bool) : Text → Option (List Nat)
  | [] => if expected then none else some []
  | '_' :: t => if expected then none else digitValues? true t
  | c :: t => do
    let d ← decimalDigit? c
    return d :: (← digitValues? false t)

/-- Whether a character around a number does not count. -/
def isPadding (c : Char) : Bool := Text.isBlank c && !(0x1C ≤ c.toNat && c.toNat ≤ 0x1F)

/-- The text without the padding on its two sides. -/
def trimmed (t : Text) : Text :=
  ((t.dropWhile isPadding).reverse.dropWhile isPadding).reverse

/-- The greatest number of digits of a number. -/
def maxDigits : Nat := 4300

/-- The number that a text writes. -/
def wholeNumber? (t : Text) : Option Int := do
  let (negative, body) : Bool × Text :=
    match trimmed t with
    | '-' :: t => (true, t)
    | '+' :: t => (false, t)
    | t => (false, t)
  let ds ← digitValues? true body
  if maxDigits < ds.length then none
  else
    let n : Nat := ds.foldl (fun n d => n * 10 + d) 0
    return if negative then -n else n

end ReplyLedger.CommandLine
