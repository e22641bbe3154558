/-!
# Double-precision numbers

The finite numbers of the binary64 format, as a sign, a significand and an exponent of two, together
with the infinities and the not-a-number. `ofRatio` rounds a quotient of natural numbers to the
nearest double, a tie going to the even significand; numbers are read from decimal digits by it.
Everything is exact arithmetic on natural numbers.
-/

namespace ReplyLedger

/-- A number of the binary64 format; `finite neg m q` stands for `m * 2 ^ q`, negated if `neg`. -/
inductive Binary64
  | nan
  | infinite (neg : Bool)
  | finite (neg : Bool) (significand : Nat) (exponent : Int)
  deriving DecidableEq, Repr

namespace Binary64

/-- The least exponent of a finite double. -/
def minExponent : Int := -1074

/-- The greatest exponent of a finite double. -/
def maxExponent : Int := 971

/-- The first natural number with more bits than a significand has. -/
def significandBound : Nat := Nat.pow 2 53

/-- The quotient of two natural numbers, rounded to the nearest, a tie to the even one. -/
def divNearest (num den : Nat) : Nat :=
  let low := num / den
  let twice := 2 * (num % den)
  if twice < den || (twice == den && low % 2 == 0) then low else low + 1

/-- `num / (den * 2 ^ q)`, as a quotient of natural numbers. -/
def scaled (num den : Nat) (q : Int) : Nat × Nat :=
  if 0 ≤ q then (num, den * Nat.pow 2 q.toNat) else (num * Nat.pow 2 (-q).toNat, den)

/-- The exponent at which `num / den` has a significand of 53 bits, or the least exponent. -/
def exponentOf (num den : Nat) : Int :=
  let q : Int := (num.log2 : Int) - den.log2 - 53
  let (n, d) := scaled num den q
  max minExponent (if n / d < significandBound then q else q + 1)

/-- The double nearest to `num / den`, negated if `neg`. -/
def ofRatio (neg : Bool) (num den : Nat) : Binary64 :=
  if num = 0 then finite neg 0 minExponent
  else
    let q := exponentOf num den
    let (n, d) := scaled num den q
    let m := divNearest n d
    let (m, q) := if m < significandBound then (m, q) else (significandBound / 2, q + 1)
    if maxExponent < q then infinite neg else finite neg m q

/-- The double nearest to `digits * 10 ^ exponent`, negated if `neg`. Numbers far outside the range
of finite doubles are told from the number of their digits. -/
def ofDecimal (neg : Bool) (digits : Nat) (exponent : Int) : Binary64 :=
  let size : Int := (Nat.toDigits 10 digits).length + exponent
  if digits = 0 || size < -400 then finite neg 0 minExponent
  else if 400 < size then infinite neg
  else if 0 ≤ exponent then ofRatio neg (digits * Nat.pow 10 exponent.toNat) 1
  else ofRatio neg digits (Nat.pow 10 (-exponent).toNat)

/-- Whether a number is zero, of either sign. -/
def isZero : Binary64 → Bool
  | finite _ m _ => m == 0
  | _ => false

/-- Whether a finite double has the value of the integer `n`. -/
def equalsInt (x : Binary64) (n : Int) : Bool :=
  match x with
  | finite neg m q =>
    let signed : Int := if neg then -(m : Int) else m
    if 0 ≤ q then signed * Nat.pow 2 q.toNat == n else signed == n * Nat.pow 2 (-q).toNat
  | _ => false

/-- Whether two doubles have the same value. The zeros are equal, and so is the not-a-number to
itself. -/
def sameValue (x y : Binary64) : Bool := x == y || (x.isZero && y.isZero)

end Binary64

end ReplyLedger
