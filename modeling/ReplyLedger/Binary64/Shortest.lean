import ReplyLedger.Binary64.Basic
import ReplyLedger.Text.Basic

/-!
# The shortest text of a double

A finite double is written with the fewest significant digits that read back as the same double, and
of those digits with the nearest. The digits are found by trying one digit, two digits and so on:
a grid of decimal numbers has at most two points next to the double, and the first grid with a point
that reads back wins. `NumberText` says where the decimal point and the exponent go.
-/

namespace ReplyLedger.Binary64

/-- The number of digits before the decimal point of `num / den`: negative when zeros follow the
point. -/
def pointOf (num den : Nat) : Int :=
  let n := (Nat.toDigits 10 num).length
  let d := (Nat.toDigits 10 den).length
  let guess : Int := (n : Int) - d
  let reaches : Bool :=
    if 0 ≤ guess then den * Nat.pow 10 guess.toNat ≤ num else den ≤ num * Nat.pow 10 (-guess).toNat
  if reaches then guess + 1 else guess

/-- The points of the decimal grid with `count` digits that lie next to `num / den`, the nearer one
first. -/
def neighbours (num den count : Nat) : List (Nat × Int) :=
  let unit : Int := pointOf num den - count
  let (n, d) :=
    if 0 ≤ unit then (num, den * Nat.pow 10 unit.toNat) else (num * Nat.pow 10 (-unit).toNat, den)
  let low := n / d
  if divNearest n d = low then [(low, unit), (low + 1, unit)] else [(low + 1, unit), (low, unit)]

/-- The digits without the zeros at their end, and how many were dropped. -/
def dropZeros : Nat → Nat → Nat × Nat
  | 0, n => (n, 0)
  | fuel + 1, n =>
    if n ≠ 0 && n % 10 == 0 then
      let (m, k) := dropZeros fuel (n / 10)
      (m, k + 1)
    else (n, 0)

/-- The shortest decimal number that reads back as `m * 2 ^ q`, as digits and a power of ten. -/
def shortest (m : Nat) (q : Int) : Nat × Int :=
  let (num, den) := if 0 ≤ q then (m * Nat.pow 2 q.toNat, 1) else (m, Nat.pow 2 (-q).toNat)
  let candidates := (List.range 17).flatMap fun k => neighbours num den (k + 1)
  let found := candidates.find? fun (digits, e) => ofDecimal false digits e == finite false m q
  let (digits, e) := found.getD (0, 0)
  let (digits, dropped) := dropZeros 20 digits
  (digits, e + dropped)

/-- How numbers are laid out: which places of the decimal point are written without an exponent, and
the texts of the special numbers. -/
structure NumberText where
  leastPoint : Int
  greatestPoint : Int
  exponentMark : Text
  nan : Text
  infinity : Text

/-- The layout of a positive number with the digits `ds`, the decimal point standing after `point`
of them. -/
def NumberText.layout (f : NumberText) (ds : Text) (point : Int) : Text :=
  if f.leastPoint ≤ point && point ≤ f.greatestPoint then
    if point ≤ 0 then ['0', '.'] ++ List.replicate (-point).toNat '0' ++ ds
    else if ds.length ≤ point.toNat then
      ds ++ List.replicate (point.toNat - ds.length) '0' ++ ['.', '0']
    else ds.take point.toNat ++ ['.'] ++ ds.drop point.toNat
  else
    let e := point - 1
    let mantissa :=
      match ds with
      | [d] => [d]
      | ds => ds.take 1 ++ ['.'] ++ ds.drop 1
    mantissa ++ f.exponentMark ++ [if e < 0 then '-' else '+'] ++ Text.ofNatPadded 2 e.natAbs

/-- The text of a double in a layout. -/
def NumberText.write (f : NumberText) (x : Binary64) : Text :=
  match x with
  | .nan => f.nan
  | .infinite neg => (if neg then ['-'] else []) ++ f.infinity
  | .finite neg m q =>
    let body :=
      if m = 0 then ['0', '.', '0']
      else
        let (digits, e) := shortest m q
        let ds := Text.ofNat digits
        f.layout ds (ds.length + e)
    (if neg then ['-'] else []) ++ body

/-- Numbers in messages: positional from 0.0001 up to sixteen digits before the point. -/
def inMessage : NumberText := ⟨-3, 16, ['e'], "nan", "inf"⟩

/-- Numbers in records: as in messages, with the record format's names for the special numbers. -/
def inRecord : NumberText := ⟨-3, 16, ['e'], "NaN", "Infinity"⟩

end ReplyLedger.Binary64
