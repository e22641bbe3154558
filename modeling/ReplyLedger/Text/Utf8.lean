import ReplyLedger.Text.Basic

/-!
# UTF-8

Texts as bytes and back. `encode` writes each character in one to four bytes. `chunks` reads any
bytes as a sequence of characters and of broken pieces, a broken piece being the longest beginning
of a well-formed character, or one byte that begins none; so overlong forms, encoded surrogates and
numbers above U+10FFFF are broken at their second byte. A text is then read from the chunks in one
of three ways: refusing the first broken piece (`decode`), writing each as U+FFFD, or leaving them
out.
-/

namespace ReplyLedger

/-- The contents of a file. -/
abbrev Bytes := List UInt8

namespace Utf8

/-! ## Writing -/

/-- The bytes of a character. -/
def encodeChar (c : Char) : Bytes :=
  let n := c.toNat
  if n < 0x80 then [UInt8.ofNat n]
  else if n < 0x800 then [UInt8.ofNat (0xC0 + n / 64), UInt8.ofNat (0x80 + n % 64)]
  else if n < 0x10000 then
    [UInt8.ofNat (0xE0 + n / 4096), UInt8.ofNat (0x80 + n / 64 % 64), UInt8.ofNat (0x80 + n % 64)]
  else
    [UInt8.ofNat (0xF0 + n / 262144), UInt8.ofNat (0x80 + n / 4096 % 64),
      UInt8.ofNat (0x80 + n / 64 % 64), UInt8.ofNat (0x80 + n % 64)]

/-- The bytes of a text. -/
def encode (t : Text) : Bytes := t.flatMap encodeChar

/-! ## Reading -/

/-- What is wrong with a piece that is no character. -/
inductive Flaw
  /-- A byte that begins no character. -/
  | invalidStart
  /-- A beginning whose next byte does not continue it. -/
  | invalidContinuation
  /-- A beginning at the end of the bytes. -/
  | unexpectedEnd
  deriving DecidableEq, Repr

/-- How a flaw is named in a message. -/
def Flaw.reason : Flaw → Text
  | .invalidStart => "invalid start byte"
  | .invalidContinuation => "invalid continuation byte"
  | .unexpectedEnd => "unexpected end of data"

/-- A character, or a piece that is none. -/
inductive Chunk
  | char (c : Char)
  | broken (piece : Bytes) (flaw : Flaw)
  deriving DecidableEq, Repr

/-- How many bytes continue a character that begins with `b`; none begins with any other byte. -/
def tailLength? (b : UInt8) : Option Nat :=
  if b < 0x80 then some 0
  else if b < 0xC2 then none
  else if b < 0xE0 then some 1
  else if b < 0xF0 then some 2
  else if b < 0xF5 then some 3
  else none

/-- The least second byte after `b`. -/
def secondLow (b : UInt8) : UInt8 := if b = 0xE0 then 0xA0 else if b = 0xF0 then 0x90 else 0x80

/-- The greatest second byte after `b`. -/
def secondHigh (b : UInt8) : UInt8 := if b = 0xED then 0x9F else if b = 0xF4 then 0x8F else 0xBF

/-- At most `k` continuation bytes, the first of them from `low` to `high`, and the rest. -/
def takeTail : Nat → UInt8 → UInt8 → Bytes → Bytes × Bytes
  | k + 1, low, high, b :: t =>
    if low ≤ b && b ≤ high then
      let (tail, rest) := takeTail k 0x80 0xBF t
      (b :: tail, rest)
    else ([], b :: t)
  | _, _, _, t => ([], t)

/-- The bits of the first byte of a character that has `k` more. -/
def leadBits (k : Nat) (b : UInt8) : Nat :=
  match k with
  | 0 => b.toNat
  | 1 => b.toNat - 0xC0
  | 2 => b.toNat - 0xE0
  | _ => b.toNat - 0xF0

/-- The character of a first byte and its continuation. -/
def assemble (b : UInt8) (tail : Bytes) : Char :=
  Char.ofNat (tail.foldl (fun n c => n * 64 + (c.toNat - 0x80)) (leadBits tail.length b))

/-- The first chunk of the bytes `b :: t`, and the rest. -/
def chunk (b : UInt8) (t : Bytes) : Chunk × Bytes :=
  match tailLength? b with
  | none => (.broken [b] .invalidStart, t)
  | some k =>
    let (tail, rest) := takeTail k (secondLow b) (secondHigh b) t
    if tail.length = k then (.char (assemble b tail), rest)
    else (.broken (b :: tail) (if rest.isEmpty then .unexpectedEnd else .invalidContinuation), rest)

/-- Taking continuation bytes loses nothing. -/
theorem takeTail_append (k : Nat) (low high : UInt8) (t : Bytes) :
    (takeTail k low high t).1 ++ (takeTail k low high t).2 = t := by
  fun_induction takeTail k low high t <;> simp_all

theorem length_chunk_le (b : UInt8) (t : Bytes) : (chunk b t).2.length ≤ t.length := by
  unfold chunk
  split
  · exact Nat.le_refl _
  · rename_i k _
    have h := congrArg List.length (takeTail_append k (secondLow b) (secondHigh b) t)
    simp only [List.length_append] at h
    dsimp only
    split <;> simp only <;> omega

/-- The chunks of a sequence of bytes. -/
def chunks : Bytes → List Chunk
  | [] => []
  | b :: t => (chunk b t).1 :: chunks (chunk b t).2
termination_by t => t.length
decreasing_by exact Nat.lt_succ_of_le (length_chunk_le b t)

/-- The first broken piece of bytes that are no text, and how many bytes stand before it. -/
structure DecodeFault where
  position : Nat
  piece : Bytes
  flaw : Flaw
  deriving DecidableEq, Repr

/-- The message about bytes that are no text. -/
def DecodeFault.message (f : DecodeFault) : Text :=
  let place : Text :=
    match f.piece with
    | [b] => "byte 0x" ++ Text.ofHexPadded 2 b.toNat ++ " in position " ++ Text.ofNat f.position
    | piece =>
      "bytes in position " ++ Text.ofNat f.position ++ "-" ++
        Text.ofNat (f.position + piece.length - 1)
  "'utf-8' codec can't decode " ++ place ++ ": " ++ f.flaw.reason

/-- The text of chunks that `position` bytes precede, unless one is broken. -/
def textOfChunks (position : Nat) : List Chunk → Except DecodeFault Text
  | [] => .ok []
  | .char c :: r => (textOfChunks (position + (encodeChar c).length) r).map (c :: ·)
  | .broken piece flaw :: _ => .error ⟨position, piece, flaw⟩

/-- The text of a sequence of bytes, or its first broken piece. -/
def decode (b : Bytes) : Except DecodeFault Text := textOfChunks 0 (chunks b)

/-- What reading does about a broken piece. -/
inductive OnBroken
  /-- Refuse the bytes. -/
  | strict
  /-- Read a replacement character. -/
  | replace
  /-- Read nothing. -/
  | ignore
  deriving DecidableEq, Repr

/-- The text of a sequence of bytes, broken pieces treated as `mode` says. -/
def decodeWith (mode : OnBroken) (b : Bytes) : Except DecodeFault Text :=
  match mode with
  | .strict => decode b
  | .replace =>
    .ok ((chunks b).map fun
      | .char c => c
      | .broken _ _ => '\uFFFD')
  | .ignore =>
    .ok ((chunks b).filterMap fun
      | .char c => some c
      | .broken _ _ => none)

end Utf8

end ReplyLedger
