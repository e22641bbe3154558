import ReplyLedger.Json.Value

/-!
# Reading JSON

`Value.ofDocument` reads the text of one JSON value, or says what is wrong and where. Besides the
standard's values the words `NaN`, `Infinity` and `-Infinity` are numbers. A text may hold any
character from U+0020 on; of equal keys the last value counts, in the place of the first.

Reading works on a `Cursor`, the text that is left and its position in the document. The nesting of
values is followed by a counter, `fuel`, that is larger than any document needs: each step that
takes from it has a character of its own.
-/

namespace ReplyLedger.Json

/-- What is wrong with a document. -/
inductive Problem
  | value
  | extraData
  | key
  | colon
  | comma
  | unterminatedText
  | controlCharacter
  | escape
  | unicodeEscape
  | byteOrderMark
  deriving DecidableEq, Repr

/-- How a problem is named in a message. -/
def Problem.phrase : Problem → Text
  | .value => "Expecting value"
  | .extraData => "Extra data"
  | .key => "Expecting property name enclosed in double quotes"
  | .colon => "Expecting ':' delimiter"
  | .comma => "Expecting ',' delimiter"
  | .unterminatedText => "Unterminated string starting at"
  | .controlCharacter => "Invalid control character at"
  | .escape => "Invalid \\escape"
  | .unicodeEscape => "Invalid \\uXXXX escape"
  | .byteOrderMark => "Unexpected UTF-8 BOM (decode using utf-8-sig)"

/-- Why a document cannot be read. -/
inductive Fault
  /-- It is no JSON; the position counts characters from the beginning. -/
  | malformed (problem : Problem) (position : Nat)
  /-- It holds a whole number of more digits than are read. -/
  | tooManyDigits (count : Nat)
  deriving DecidableEq, Repr

/-- The greatest number of digits of a whole number. -/
def maxDigits : Nat := 4300

/-- A position in a document, as the message about it names it: line, column and offset. -/
def place (document : Text) (position : Nat) : Text :=
  let before := document.take position
  let line := before.count '\n' + 1
  let column := (before.reverse.takeWhile (· ≠ '\n')).length + 1
  "line " ++ Text.ofNat line ++ " column " ++ Text.ofNat column ++ " (char " ++
    Text.ofNat position ++ ")"

/-- The message about a document that cannot be read. -/
def Fault.message (document : Text) : Fault → Text
  | .malformed problem position => problem.phrase ++ ": " ++ place document position
  | .tooManyDigits count =>
    "Exceeds the limit (" ++ Text.ofNat maxDigits ++
      " digits) for integer string conversion: value has " ++ Text.ofNat count ++
      " digits; use sys.set_int_max_str_digits() to increase the limit"

/-- What is left of a document, and how many characters came before it. -/
structure Cursor where
  position : Nat
  rest : Text
  deriving DecidableEq, Repr

namespace Cursor

/-- The cursor `n` characters further on. -/
def skip (n : Nat) (c : Cursor) : Cursor := ⟨c.position + n, c.rest.drop n⟩

/-- The cursor after the blanks that may stand between tokens. -/
def skipBlanks (c : Cursor) : Cursor :=
  c.skip (c.rest.takeWhile fun x => x = ' ' || x = '\t' || x = '\n' || x = '\r').length

end Cursor

/-! ## Texts -/

/-- The value of a hexadecimal digit. -/
def hexDigit? (c : Char) : Option Nat :=
  let n := c.toNat
  if 0x30 ≤ n && n ≤ 0x39 then some (n - 0x30)
  else if 0x41 ≤ n && n ≤ 0x46 then some (n - 0x41 + 10)
  else if 0x61 ≤ n && n ≤ 0x66 then some (n - 0x61 + 10)
  else none

/-- The number that four hexadecimal digits write. -/
def hexNumber? (a b c d : Char) : Option Nat := do
  let w ← hexDigit? a
  let x ← hexDigit? b
  let y ← hexDigit? c
  let z ← hexDigit? d
  return ((w * 16 + x) * 16 + y) * 16 + z

/-- Whether a number is the first half of a pair that writes one character. -/
def isHighHalf (n : Nat) : Bool := 0xD800 ≤ n && n ≤ 0xDBFF

/-- Whether a number is the second half of a pair that writes one character. -/
def isLowHalf (n : Nat) : Bool := 0xDC00 ≤ n && n ≤ 0xDFFF

/-- The character with a code point; half a pair alone is no character. -/
def charOfCode (n : Nat) : Char := if isHighHalf n || isLowHalf n then '\uFFFD' else Char.ofNat n

/-- The character that a backslash and one more character write. -/
def simpleEscape? : Char → Option Char
  | '"' => some '"'
  | '\\' => some '\\'
  | '/' => some '/'
  | 'b' => some '\x08'
  | 'f' => some '\x0c'
  | 'n' => some '\n'
  | 'r' => some '\r'
  | 't' => some '\t'
  | _ => none

/-- The character that two halves of a pair write. -/
def charOfPair (high low : Nat) : Char :=
  Char.ofNat (0x10000 + (high - 0xD800) * 0x400 + (low - 0xDC00))

/-- The number of the second half of a character that is written as a pair, when one may follow: an
escape that is not the last thing in the document. -/
def secondHalf? : Text → Option (Option Nat)
  | '\\' :: 'u' :: a :: b :: c :: d :: _ :: _ => some (hexNumber? a b c d)
  | _ => none

/-- The rest of a text whose opening quotation mark is at `start`. -/
def readText (start position : Nat) : Text → Except Fault (Text × Cursor)
  | [] => .error (.malformed .unterminatedText start)
  | '"' :: t => .ok ([], ⟨position + 1, t⟩)
  | ['\\'] => .error (.malformed .unterminatedText start)
  | '\\' :: 'u' :: a :: b :: c :: d :: t =>
    match if t.isEmpty then none else hexNumber? a b c d with
    | none => .error (.malformed .unicodeEscape (position + 1))
    | some n =>
      match if isHighHalf n then secondHalf? t else none with
      | some none => .error (.malformed .unicodeEscape (position + 7))
      | some (some low) =>
        if isLowHalf low then
          match t with
          | _ :: _ :: _ :: _ :: _ :: _ :: t =>
            (readText start (position + 12) t).map fun (s, r) => (charOfPair n low :: s, r)
          | _ => .error (.malformed .unterminatedText start)
        else (readText start (position + 6) t).map fun (s, r) => (charOfCode n :: s, r)
      | none => (readText start (position + 6) t).map fun (s, r) => (charOfCode n :: s, r)
  | '\\' :: 'u' :: _ => .error (.malformed .unicodeEscape (position + 1))
  | '\\' :: c :: t =>
    match simpleEscape? c with
    | none => .error (.malformed .escape position)
    | some c => (readText start (position + 2) t).map fun (s, r) => (c :: s, r)
  | c :: t =>
    if c.toNat < 0x20 then .error (.malformed .controlCharacter position)
    else (readText start (position + 1) t).map fun (s, r) => (c :: s, r)

/-! ## Numbers -/

/-- Whether `c` is one of the ten digits. -/
def isDigit (c : Char) : Bool := 0x30 ≤ c.toNat && c.toNat ≤ 0x39

/-- The digits of a whole number at the front of a text: a zero alone, or digits with no zero in
front. -/
def wholeDigits (t : Text) : Text :=
  match t with
  | '0' :: _ => ['0']
  | _ => t.takeWhile isDigit

/-- The digits of a fraction at the front of a text: a point and at least one digit. -/
def fractionDigits (t : Text) : Text :=
  match t with
  | '.' :: t => t.takeWhile isDigit
  | _ => []

/-- The exponent at the front of a text and how many characters write it. -/
def exponentPart (t : Text) : Option (Int × Nat) :=
  match t with
  | e :: t =>
    if e = 'e' || e = 'E' then
      let (sign, t) : Option Char × Text :=
        match t with
        | '+' :: t => (some '+', t)
        | '-' :: t => (some '-', t)
        | t => (none, t)
      let ds := t.takeWhile isDigit
      if ds.isEmpty then none
      else
        let n : Int := Text.digitsValue ds
        some (if sign = some '-' then -n else n, 1 + (if sign.isSome then 1 else 0) + ds.length)
    else none
  | [] => none

/-- The number at a cursor. -/
def readNumber (c : Cursor) : Except Fault (Value × Cursor) :=
  let (neg, body) : Bool × Text :=
    match c.rest with
    | '-' :: t => (true, t)
    | t => (false, t)
  let whole := wholeDigits body
  if whole.isEmpty then .error (.malformed .value c.position)
  else
    let tail := body.drop whole.length
    let fraction := fractionDigits tail
    let fractionLength := if fraction.isEmpty then 0 else fraction.length + 1
    let tail := tail.drop fractionLength
    let size := (if neg then 1 else 0) + whole.length + fractionLength
    match exponentPart tail with
    | some (e, n) =>
      let digits := Text.digitsValue (whole ++ fraction)
      .ok (.real (Binary64.ofDecimal neg digits (e - fraction.length)), c.skip (size + n))
    | none =>
      if fraction.isEmpty then
        if maxDigits < whole.length then .error (.tooManyDigits whole.length)
        else
          let n : Int := Text.digitsValue whole
          .ok (.int (if neg then -n else n), c.skip size)
      else
        let digits := Text.digitsValue (whole ++ fraction)
        .ok (.real (Binary64.ofDecimal neg digits (-(fraction.length : Int))), c.skip size)

/-! ## Values -/

/-- The values that are written as a word. -/
def words : List (Text × Value) :=
  [("null", .null), ("true", .bool true), ("false", .bool false), ("NaN", .real .nan),
    ("Infinity", .real (.infinite false)), ("-Infinity", .real (.infinite true))]

/-- The members with the member `key` set to `v`: in its old place, or at the end. -/
def setMember (key : Text) (v : Value) : List (Text × Value) → List (Text × Value)
  | [] => [(key, v)]
  | (k, w) :: r => if k = key then (k, v) :: r else (k, w) :: setMember key v r

mutual

/-- The value at a cursor. -/
def readValue : Nat → Cursor → Except Fault (Value × Cursor)
  | 0, c => .error (.malformed .value c.position)
  | fuel + 1, c =>
    match c.rest with
    | '"' :: t => (readText c.position (c.position + 1) t).map fun (s, r) => (.text s, r)
    | '[' :: t =>
      let c := (⟨c.position + 1, t⟩ : Cursor).skipBlanks
      match c.rest with
      | ']' :: t => .ok (.list [], ⟨c.position + 1, t⟩)
      | _ => (readItems fuel c).map fun (vs, r) => (.list vs, r)
    | '\x7b' :: t =>
      let c := (⟨c.position + 1, t⟩ : Cursor).skipBlanks
      match c.rest with
      | '\x7d' :: t => .ok (.object [], ⟨c.position + 1, t⟩)
      | _ => (readMembers fuel [] c).map fun (ms, r) => (.object ms, r)
    | t =>
      match words.find? fun w => Text.startsWith w.1 t with
      | some (w, v) => .ok (v, c.skip w.length)
      | none => readNumber c

/-- The items of a list from its next item on, with the bracket that ends it. -/
def readItems : Nat → Cursor → Except Fault (List Value × Cursor)
  | 0, c => .error (.malformed .value c.position)
  | fuel + 1, c => do
    let (v, c) ← readValue fuel c
    let c := c.skipBlanks
    match c.rest with
    | ']' :: t => return ([v], ⟨c.position + 1, t⟩)
    | ',' :: t =>
      let (vs, c) ← readItems fuel (⟨c.position + 1, t⟩ : Cursor).skipBlanks
      return (v :: vs, c)
    | _ => .error (.malformed .comma c.position)

/-- The members of an object from its next member on, after those already read, with the bracket
that ends it. -/
def readMembers : Nat → List (Text × Value) → Cursor →
    Except Fault (List (Text × Value) × Cursor)
  | 0, _, c => .error (.malformed .value c.position)
  | fuel + 1, known, c =>
    match c.rest with
    | '"' :: t => do
      let (key, c) ← readText c.position (c.position + 1) t
      let c := c.skipBlanks
      match c.rest with
      | ':' :: t =>
        let (v, c) ← readValue fuel (⟨c.position + 1, t⟩ : Cursor).skipBlanks
        let c := c.skipBlanks
        let known := setMember key v known
        match c.rest with
        | '\x7d' :: t => return (known, ⟨c.position + 1, t⟩)
        | ',' :: t => readMembers fuel known (⟨c.position + 1, t⟩ : Cursor).skipBlanks
        | _ => .error (.malformed .comma c.position)
      | _ => .error (.malformed .colon c.position)
    | _ => .error (.malformed .key c.position)

end

/-- The value of a document. -/
def Value.ofDocument (document : Text) : Except Fault Value :=
  match document with
  | '\uFEFF' :: _ => .error (.malformed .byteOrderMark 0)
  | _ => do
    let (v, c) ← readValue (2 * document.length + 2) (⟨0, document⟩ : Cursor).skipBlanks
    let c := c.skipBlanks
    if c.rest.isEmpty then return v else .error (.malformed .extraData c.position)

end ReplyLedger.Json
