import ReplyLedger.Reply.Header
import ReplyLedger.Text.Blank

/-!
# The payload of a reply

A reply may wrap its blocks in one fenced section. The payload is then the inside of the fence, less
the line that names the fence's language; a single fenced section without any header is part of some
file's contents, and the payload is the whole reply.
-/

namespace ReplyLedger.Reply

open Text

/-- The fence around a section. -/
def fence : Text := ['\x60', '\x60', '\x60']

/-- The inside of a fence without its first line, when that line is one word or none and opens no
block. -/
def dropInfoLine (inner : Text) : Text :=
  match cut ['\n'] inner with
  | none => inner
  | some (line, rest) =>
    if (strip line).contains ' ' || has ['<', '<', '<'] line then inner else rest

/-- The part of a reply that is read for blocks. -/
def payload (reply : Text) : Text :=
  match pieces fence reply with
  | [_, inner, _] => if (findHeader inner).isSome then dropInfoLine inner else reply
  | _ => reply

end ReplyLedger.Reply
