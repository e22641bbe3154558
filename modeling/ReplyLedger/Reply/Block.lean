import ReplyLedger.Operation.Basic
import ReplyLedger.Operation.CanonicalPath
import ReplyLedger.Reply.Header

/-!
# Blocks

What one block asks for. A block is a header and a body; the marker says how the two are read:

* `CREATE` gives a file its body, and `DELETE` names a file;
* `RENAME` has two paths in its argument, divided by the first arrow `->` that leaves neither side
  empty;
* `FILE` is an edit when its body begins with the search mark, and replaces the whole file when
  neither the search mark nor the replace mark occurs in it.

Bodies lose the blanks around them and paths are put in canonical form. A block that leaves a
required field empty asks for nothing.
-/

namespace ReplyLedger.Reply

open Text

/-- The mark that ends a block. -/
def endMark : Text := ['<', '<', '<', 'E', 'N', 'D', '>', '>', '>']

/-- The mark before the text to look for. -/
def searchMark : Text := ['<', '<', '<', 'S', 'E', 'A', 'R', 'C', 'H', '>', '>', '>']

/-- The mark before the text to put in its place. -/
def replaceMark : Text := ['<', '<', '<', 'R', 'E', 'P', 'L', 'A', 'C', 'E', '>', '>', '>']

/-- The two sides of a rename's argument. The arrow is not the first character. -/
def renameSides? (argument : Text) : Option (Text × Text) :=
  match strip argument with
  | [] => none
  | c :: t =>
    match cut ['-', '>'] t with
    | none => none
    | some (before, after) => if after = [] then none else some (c :: before, after)

/-- The operation of a `FILE` block. -/
def fileOperation? (path body : Text) : Option (Operation Text) :=
  let opened := stripLeft body
  if startsWith searchMark opened then
    (cut replaceMark (opened.drop searchMark.length)).map fun (search, replacement) =>
      .edit path (strip search) (strip replacement)
  else if has searchMark body || has replaceMark body then none
  else some (.overwrite path (strip body))

/-- What a block asks for, before its required fields are checked. -/
def readBlock? (marker : Marker) (argument body : Text) : Option (Operation Text) :=
  match marker with
  | .create => some (.create (canonicalPath argument) (strip body))
  | .delete => some (.delete (canonicalPath argument))
  | .rename =>
    (renameSides? argument).map fun (source, target) =>
      .rename (canonicalPath source) (canonicalPath target)
  | .file => fileOperation? (canonicalPath argument) body

/-- The operation of a block, if it is well formed. -/
def blockOperation? (marker : Marker) (argument body : Text) : Option (Operation Text) :=
  (readBlock? marker argument body).filter fun op => (op.lacking? List.isEmpty).isNone

end ReplyLedger.Reply
