import ReplyLedger.Reply.Block
import ReplyLedger.Reply.Payload

/-!
# Reading a reply

A reply is scanned once, forwards. Each header opens a block; the block's body reaches to the next
end mark. When there is none, or another header comes first, the block is unterminated and the scan
goes on after its header. `findings` lists what the scan met, in order; the operations of a reply
and the notes about skipped blocks are read off it.
-/

namespace ReplyLedger.Reply

open Text

/-- What the scan makes of one header. Offsets are those of the header in the payload. -/
inductive Finding
  /-- A well-formed block. -/
  | operation (op : Operation Text)
  /-- A header without an end mark of its own. -/
  | unterminated (marker : Marker) (offset : Nat)
  /-- A block that asks for nothing. -/
  | malformed (marker : Marker) (offset : Nat)
  deriving DecidableEq, Repr

namespace Finding

/-- The operation of a well-formed block. -/
def operation? : Finding → Option (Operation Text)
  | .operation op => some op
  | _ => none

/-- The note about a block that was skipped. -/
def note? : Finding → Option Text
  | .operation _ => none
  | .unterminated m offset =>
    some ("Unterminated " ++ m.word ++ " block at offset " ++ ofNat offset)
  | .malformed m offset =>
    some ("Dropped malformed " ++ m.word ++ " block at offset " ++ ofNat offset)

end Finding

/-- The finding for a complete block. -/
def blockFinding (h : Header) (offset : Nat) (body : Text) : Finding :=
  match blockOperation? h.marker h.argument body with
  | some op => .operation op
  | none => .malformed h.marker offset

/-- The findings of the text `t` that begins at `offset`. -/
def findingsFrom (offset : Nat) (t : Text) : List Finding :=
  match _h : findHeader t with
  | none => []
  | some (before, h, rest) =>
    let start := offset + before.length
    let bodyStart := start + h.written.length
    match _c : cut endMark rest with
    | none => .unterminated h.marker start :: findingsFrom bodyStart rest
    | some (body, after) =>
      match findHeader body with
      | some (skipped, _, _) =>
        .unterminated h.marker start ::
          findingsFrom (bodyStart + skipped.length) (rest.drop skipped.length)
      | none =>
        blockFinding h start body ::
          findingsFrom (bodyStart + body.length + endMark.length) after
termination_by t.length
decreasing_by
  all_goals
    have := length_lt_of_findHeader ‹findHeader t = _›
    first
    | exact this
    | simp only [List.length_drop]; omega
    | have := length_lt_of_cut (by decide) ‹cut endMark rest = _›; omega

/-- What the scan of a reply meets, in order. -/
def findings (reply : Text) : List Finding := findingsFrom 0 (payload reply)

/-- The operations that a reply asks for, in order. -/
def operations (reply : Text) : List (Operation Text) :=
  (findings reply).filterMap Finding.operation?

/-- The notes about the blocks that were skipped, in order. -/
def notes (reply : Text) : List Text := (findings reply).filterMap Finding.note?

end ReplyLedger.Reply
